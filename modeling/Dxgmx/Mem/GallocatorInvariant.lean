import Mathlib.Data.List.Nodup
import Mathlib.Data.List.Pairwise
import Dxgmx.Mem.GallocatorCalls

open Library

namespace Dxgmx

open AllocationCtx Allocation

/-- What memory says of the live allocations, whatever the bits of the other chunks are. -/
structure HeapKept (heap : Heap) (m : GAllocatorHeapMeta) (mem : Nat → Byte)
    (live : List Allocation) : Prop where
  layout : HeapLayout heap m
  heapMeta : GAllocatorHeapMeta.load mem heap.vaddr.toNat = m
  lives : ∀ a ∈ live, ∃ p k, Lives m a p k
  described : ∀ a ∈ live, GAllocationMeta.load mem (a.addr - allocationMetaSize) = a.metadata
  apart : live.Pairwise Apart
  marked : ∀ c p, m.pool c = some p → ∀ i < 8 * p.bitmapsize,
    (∃ a ∈ live, a.Owns p i) → bitAt mem p.bitmapstart i = true

/-- The bitmaps and the metadata in memory agree with the list of live allocations. -/
structure HeapInv (heap : Heap) (m : GAllocatorHeapMeta) (mem : Nat → Byte)
    (live : List Allocation) : Prop where
  layout : HeapLayout heap m
  heapMeta : GAllocatorHeapMeta.load mem heap.vaddr.toNat = m
  lives : ∀ a ∈ live, ∃ p k, Lives m a p k
  described : ∀ a ∈ live, GAllocationMeta.load mem (a.addr - allocationMetaSize) = a.metadata
  apart : live.Pairwise Apart
  bits : ∀ c p, m.pool c = some p → ∀ i < 8 * p.bitmapsize,
    bitAt mem p.bitmapstart i = true ↔ ∃ a ∈ live, a.Owns p i

/-- The live allocations after a call that asked for `size` bytes. -/
def allocated (size alignment : Nat) (live : List Allocation) : Option Nat → List Allocation
  | none => live
  | some addr => ⟨addr, size, alignment⟩ :: live

section

variable {heap : Heap} {m : GAllocatorHeapMeta} {mem mem' : Nat → Byte}
  {live live' : List Allocation} {a b : Allocation} {p : AllocationCtx} {k : Nat}

theorem Apart.not_owns (apart : Apart a b) {i : Nat} (owns : a.Owns p i) : ¬ b.Owns p i := by
  intro again
  obtain ⟨-, aLow, aHigh⟩ := owns
  obtain ⟨-, bLow, bHigh⟩ := again
  unfold Apart at apart
  omega

theorem HeapInv.kept (inv : HeapInv heap m mem live) : HeapKept heap m mem live :=
  ⟨inv.layout, inv.heapMeta, inv.lives, inv.described, inv.apart,
    fun c p here i inside => (inv.bits c p here i inside).mpr⟩

theorem HeapKept.inv (kept : HeapKept heap m mem live)
    (bits : ∀ c p, m.pool c = some p → ∀ i < 8 * p.bitmapsize,
      bitAt mem p.bitmapstart i = true → ∃ a ∈ live, a.Owns p i) : HeapInv heap m mem live :=
  ⟨kept.layout, kept.heapMeta, kept.lives, kept.described, kept.apart,
    fun c p here i inside => ⟨bits c p here i inside, kept.marked c p here i inside⟩⟩

theorem HeapKept.apart_of_ne (kept : HeapKept heap m mem live) (first : a ∈ live)
    (second : b ∈ live) (different : b ≠ a) : Apart a b :=
  kept.apart.forall first second different.symm

theorem HeapKept.nodup (kept : HeapKept heap m mem live) : live.Nodup := by
  refine kept.apart.imp_of_mem fun {a b} member _ apart same => ?_
  obtain ⟨p, k, lives⟩ := kept.lives a member
  have range := lives.range
  subst same
  unfold Apart at apart
  omega

/-- A call on one allocation leaves the bitmaps of the other pools. -/
theorem ChangesOnly.bitAt_other (layout : HeapLayout heap m) (frame : ChangesOnly p a mem mem')
    (lives : Lives m a p k) {c : Nat} {q : AllocationCtx} (here : m.pool c = some q)
    (other : c ≠ chunksizeFor a.size) {i : Nat} (inside : i < 8 * q.bitmapsize) :
    bitAt mem' q.bitmapstart i = bitAt mem q.bitmapstart i := by
  have apart := pools_apart layout here lives.pool other
  have bounds := pool_bounds layout lives.pool
  have qBounds := pool_bounds layout here
  have range := lives.range
  apply bitAt_congr
  apply frame
  · omega
  · omega

/-- What one allocation may change keeps the rest if its own metadata and the bits of its pool say
    afterwards whether it lives. -/
theorem HeapKept.change (kept : HeapKept heap m mem live) (lives : Lives m a p k)
    (frame : ChangesOnly p a mem mem') (apartFrom : ∀ b ∈ live, b ≠ a → Apart a b)
    (others : ∀ b, b ≠ a → (b ∈ live' ↔ b ∈ live)) (apart : live'.Pairwise Apart)
    (described : a ∈ live' → GAllocationMeta.load mem' (a.addr - allocationMetaSize) = a.metadata)
    (marked : ∀ i < 8 * p.bitmapsize, (∃ b ∈ live', b.Owns p i) →
      bitAt mem' p.bitmapstart i = true) :
    HeapKept heap m mem' live' := by
  have bounds := pool_bounds kept.layout lives.pool
  have range := lives.range
  refine ⟨kept.layout, ?_, fun b member => ?_, fun b member => ?_, apart,
    fun c q here i inside => ?_⟩
  · rw [← kept.heapMeta]
    refine GAllocatorHeapMeta.load_congr fun x low high => frame x (.inl ?_) (.inl ?_)
    · omega
    · omega
  · by_cases same : b = a
    · rw [same]
      exact ⟨p, k, lives⟩
    · exact kept.lives b ((others b same).mp member)
  · by_cases same : b = a
    · rw [same] at member ⊢
      exact described member
    · have old := (others b same).mp member
      have apart := apartFrom b old same
      obtain ⟨q, l, there⟩ := kept.lives b old
      have bRange := there.range
      have bBounds := pool_bounds kept.layout there.pool
      rw [← kept.described b old]
      unfold Apart at apart
      unfold allocationMetaSize
      refine GAllocationMeta.load_congr fun x low high => frame x (.inr ?_) ?_
      · omega
      · omega
  · by_cases same : c = chunksizeFor a.size
    · rw [same, lives.pool] at here
      rw [← Option.some.inj here] at inside ⊢
      exact marked i inside
    · rw [frame.bitAt_other kept.layout lives here same inside]
      rintro ⟨b, member, owns⟩
      have different : b ≠ a := by
        rintro rfl
        exact same ((pool_chunksize here).symm.trans owns.1.symm)
      exact kept.marked c q here i inside ⟨b, (others b different).mp member, owns⟩

theorem HeapKept.fresh (kept : HeapKept heap m mem live) (allocates : Allocates m a p k mem mem')
    (member : b ∈ live) : Apart a b := by
  have lives := allocates.lives
  obtain ⟨q, l, there⟩ := kept.lives b member
  by_cases same : chunksizeFor a.size = chunksizeFor b.size
  · have pools := there.pool
    rw [← same, lives.pool] at pools
    cases Option.some.inj pools
    have placed := kept.layout.placed _ _ lives.pool
    refine lives.apart_of_chunks there fun i low high bLow bHigh => ?_
    have inside := lives.inside
    have covered := placed.covered
    have set := kept.marked _ _ lives.pool i (by omega)
      ⟨b, member, (there.owns placed.positive i).mpr ⟨bLow, bHigh⟩⟩
    rw [allocates.free i low high] at set
    cases set
  · exact lives.apart_of_pools kept.layout there same

theorem HeapKept.mark (kept : HeapKept heap m mem live) (allocates : Allocates m a p k mem mem')
    (small : a.size < 2 ^ 32 ∧ a.alignment < 2 ^ 32) : HeapKept heap m mem' (a :: live) := by
  have lives := allocates.lives
  have placed := kept.layout.placed _ _ lives.pool
  have new : ∀ b ∈ live, Apart a b := fun b member => kept.fresh allocates member
  refine kept.change lives allocates.changesOnly (fun b member _ => new b member)
    (fun b different => ?_) (.cons new kept.apart) (fun _ => allocates.described small)
    fun i inside => ?_
  · rw [List.mem_cons]
    exact or_iff_right different
  · rw [allocates.bitAt kept.layout inside, List.exists_mem_cons_iff, lives.owns placed.positive]
    split_ifs with marked
    · exact fun _ => rfl
    · rintro (owns | old)
      · exact absurd owns marked
      · exact kept.marked _ _ lives.pool i inside old

theorem HeapInv.mark (inv : HeapInv heap m mem live) (allocates : Allocates m a p k mem mem')
    (small : a.size < 2 ^ 32 ∧ a.alignment < 2 ^ 32) : HeapInv heap m mem' (a :: live) := by
  have lives := allocates.lives
  have placed := inv.layout.placed _ _ lives.pool
  refine (inv.kept.mark allocates small).inv fun c q here i inside => ?_
  rw [List.exists_mem_cons_iff]
  by_cases same : c = chunksizeFor a.size
  · rw [same, lives.pool] at here
    rw [← Option.some.inj here] at inside ⊢
    rw [allocates.bitAt inv.layout inside, lives.owns placed.positive]
    split_ifs with marked
    · exact fun _ => .inl marked
    · exact fun set => .inr ((inv.bits _ _ lives.pool i inside).mp set)
  · rw [allocates.changesOnly.bitAt_other inv.layout lives here same inside]
    exact fun set => .inr ((inv.bits c q here i inside).mp set)

theorem gallocatorAllocAligned_spec (inv : HeapInv heap m mem live) {size e : Nat}
    (some_ : 0 < size) (small : size < 2 ^ 32) (low : e < 32) :
    ∃ result mem', gallocatorAllocAligned size (2 ^ e) heap mem = .ok (result, mem') ∧
      HeapInv heap m mem' (allocated size (2 ^ e) live result) := by
  rcases gallocatorAllocAligned_cases inv.layout inv.heapMeta some_ low with
    call | ⟨addr, p, k, mem', call, allocates⟩
  · exact ⟨none, mem, call, inv⟩
  · exact ⟨some addr, mem', call,
      inv.mark allocates ⟨small, Nat.pow_lt_pow_right (by decide) low⟩⟩

theorem HeapKept.clear (kept : HeapKept heap m mem live) (member : a ∈ live)
    (frees : Frees m a p k mem mem') : HeapKept heap m mem' (live.erase a) := by
  have lives := frees.lives
  have placed := kept.layout.placed _ _ lives.pool
  have erased : ∀ b, b ∈ live.erase a ↔ b ≠ a ∧ b ∈ live := fun b => kept.nodup.mem_erase_iff
  refine kept.change lives frees.changesOnly
    (fun b inside different => kept.apart_of_ne member inside different)
    (fun b different => ?_) (kept.apart.sublist List.erase_sublist) (fun still => ?_)
    fun i inside => ?_
  · rw [erased]
    exact and_iff_right different
  · exact absurd rfl ((erased a).mp still).1
  · rintro ⟨b, left, owned⟩
    rcases (erased b).mp left with ⟨different, old⟩
    have notOwned : ¬ a.Owns p i :=
      Apart.not_owns (kept.apart_of_ne member old different).symm owned
    rw [frees.bitAt kept.layout inside, if_neg (notOwned ∘ (lives.owns placed.positive i).mpr)]
    exact kept.marked _ _ lives.pool i inside ⟨b, old, owned⟩

theorem HeapInv.clear (inv : HeapInv heap m mem live) (member : a ∈ live)
    (frees : Frees m a p k mem mem') : HeapInv heap m mem' (live.erase a) := by
  have lives := frees.lives
  have placed := inv.layout.placed _ _ lives.pool
  refine (inv.kept.clear member frees).inv fun c q here i inside => ?_
  by_cases same : c = chunksizeFor a.size
  · rw [same, lives.pool] at here
    rw [← Option.some.inj here] at inside ⊢
    rw [frees.bitAt inv.layout inside]
    split_ifs with cleared
    · exact nofun
    · intro set
      rcases (inv.bits _ _ lives.pool i inside).mp set with ⟨b, old, owned⟩
      refine ⟨b, (inv.kept.nodup.mem_erase_iff).mpr ⟨?_, old⟩, owned⟩
      rintro rfl
      exact cleared ((lives.owns placed.positive i).mp owned)
  · rw [frees.changesOnly.bitAt_other inv.layout lives here same inside]
    intro set
    rcases (inv.bits c q here i inside).mp set with ⟨b, old, owned⟩
    refine ⟨b, (inv.kept.nodup.mem_erase_iff).mpr ⟨?_, old⟩, owned⟩
    rintro rfl
    exact same ((pool_chunksize here).symm.trans owned.1.symm)

theorem gallocatorFree_spec (inv : HeapInv heap m mem live) (member : a ∈ live) :
    ∃ mem', gallocatorFree a.addr heap mem = .ok mem' ∧ HeapInv heap m mem' (live.erase a) := by
  obtain ⟨p, k, lives⟩ := inv.lives a member
  rcases gallocatorFree_frees inv.layout inv.heapMeta lives (inv.described a member) with
    ⟨mem', call, frees⟩
  exact ⟨mem', call, inv.clear member frees⟩

/-- Writing from a payload on up to the byte behind its chunks meets no metadata: a chunk of metadata
    ends with it. -/
theorem HeapKept.fillTo (kept : HeapKept heap m mem live) (member : a ∈ live)
    (frame : ∀ x, x < a.addr ∨ a.high < x → mem' x = mem x) : HeapKept heap m mem' live := by
  obtain ⟨p, k, lives⟩ := kept.lives a member
  have bounds := pool_bounds kept.layout lives.pool
  have range := lives.range
  refine ⟨kept.layout, ?_, kept.lives, fun b inside => ?_, kept.apart,
    fun c q here i inside owned => ?_⟩
  · rw [← kept.heapMeta]
    exact GAllocatorHeapMeta.load_congr fun x low high => frame x (by omega)
  · obtain ⟨q, l, there⟩ := kept.lives b inside
    have other := there.range
    rw [← kept.described b inside]
    unfold allocationMetaSize
    refine GAllocationMeta.load_congr fun x low high => frame x ?_
    by_cases same : b = a
    · rw [same] at high other
      omega
    · have apart := kept.apart_of_ne member inside same
      unfold Apart at apart
      omega
  · have qBounds := pool_bounds kept.layout here
    rw [bitAt_congr (frame _ (by omega))]
    exact kept.marked c q here i inside owned

/-- What only a payload holds is the caller's. -/
theorem HeapKept.fill (kept : HeapKept heap m mem live) (member : a ∈ live)
    (frame : ∀ x, x < a.addr ∨ a.addr + a.size ≤ x → mem' x = mem x) :
    HeapKept heap m mem' live := by
  obtain ⟨p, k, lives⟩ := kept.lives a member
  have range := lives.range
  exact kept.fillTo member fun x outside => frame x (by omega)

/-- Callers write into payloads. -/
theorem HeapInv.write (inv : HeapInv heap m mem live) (member : a ∈ live) {x : Nat} (value : Byte)
    (low : a.addr ≤ x) (high : x < a.addr + a.size) :
    HeapInv heap m (Function.update mem x value) live := by
  obtain ⟨p, k, lives⟩ := inv.lives a member
  have range := lives.range
  have other : ∀ y, y ≠ x → Function.update mem x value y = mem y :=
    fun y different => Function.update_of_ne different value mem
  refine (inv.kept.fill member fun y outside => other y (by omega)).inv fun c q here i inside => ?_
  have bounds := pool_bounds inv.layout here
  have pBounds := pool_bounds inv.layout lives.pool
  rw [bitAt_congr (other _ (by omega))]
  exact (inv.bits c q here i inside).mp

theorem Allocation.Lives.inHeap (layout : HeapLayout heap m) (lives : Lives m a p k) :
    heap.vaddr.toNat ≤ a.low ∧ a.high ≤ heap.vaddr.toNat + heap.pagespan.toNat * pageSize := by
  have bounds := pool_bounds layout lives.pool
  have range := lives.range
  have high := lives.high_le
  omega

/-- A call on one allocation leaves what lies outside of its heap. -/
theorem ChangesOnly.outside (layout : HeapLayout heap m) (lives : Lives m a p k)
    (frame : ChangesOnly p a mem mem') {x : Nat}
    (out : x < heap.vaddr.toNat ∨ heap.vaddr.toNat + heap.pagespan.toNat * pageSize ≤ x) :
    mem' x = mem x := by
  have bounds := pool_bounds layout lives.pool
  have inside := lives.inHeap layout
  apply frame
  · omega
  · omega

/-- A call on one allocation leaves the chunk range of each other one. -/
theorem ChangesOnly.range_same {q : AllocationCtx} {l : Nat} (layout : HeapLayout heap m)
    (lives : Lives m a p k) (frame : ChangesOnly p a mem mem') (there : Lives m b q l)
    (apart : Apart a b) {x : Nat} (low : b.low ≤ x) (high : x < b.high) : mem' x = mem x := by
  have bounds := pool_bounds layout lives.pool
  have qBounds := pool_bounds layout there.pool
  have range := there.range
  unfold Apart at apart
  apply frame
  · omega
  · omega

theorem HeapKept.elsewhere (kept : HeapKept heap m mem live)
    (same : ∀ x, heap.vaddr.toNat ≤ x →
      x < heap.vaddr.toNat + heap.pagespan.toNat * pageSize → mem' x = mem x) :
    HeapKept heap m mem' live := by
  refine ⟨kept.layout, ?_, kept.lives, fun a member => ?_, kept.apart,
    fun c p here i inside owned => ?_⟩
  · obtain ⟨p, here⟩ := pool_chunksizeFor m 0
    have bounds := pool_bounds kept.layout here
    rw [← kept.heapMeta]
    exact GAllocatorHeapMeta.load_congr fun x low high => same x low (by omega)
  · obtain ⟨p, k, lives⟩ := kept.lives a member
    have inside := lives.inHeap kept.layout
    have range := lives.range
    rw [← kept.described a member]
    unfold allocationMetaSize
    exact GAllocationMeta.load_congr fun x low high => same x (by omega) (by omega)
  · have bounds := pool_bounds kept.layout here
    rw [bitAt_congr (same _ (by omega) (by omega))]
    exact kept.marked c p here i inside owned

end

end Dxgmx
