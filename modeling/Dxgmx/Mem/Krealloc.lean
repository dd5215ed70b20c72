import Dxgmx.Mem.KmallocRuns

open Library

namespace Dxgmx

open AllocationCtx Allocation

/-- The block is allocated: its metadata stands before it and its chunks are marked. -/
def Kmalloc.Holds (k : Kmalloc) (x : LiveBlock) : Prop :=
  ∃ h p j, k.heaps[x.heap]? = some h ∧
    Lives (GAllocatorHeapMeta.load k.mem h.vaddr.toNat) x.allocation p j ∧
    GAllocationMeta.load k.mem (x.allocation.addr - allocationMetaSize) = x.allocation.metadata ∧
    ∀ i, x.allocation.Owns p i → bitAt k.mem p.bitmapstart i = true

/-- The place of the block is free: no metadata stands before it and its chunks are clear. -/
def Kmalloc.Freed (k : Kmalloc) (x : LiveBlock) : Prop :=
  ∃ h p j, k.heaps[x.heap]? = some h ∧
    Lives (GAllocatorHeapMeta.load k.mem h.vaddr.toNat) x.allocation p j ∧
    (GAllocationMeta.load k.mem (x.allocation.addr - allocationMetaSize)).signature ≠
      allocationSignature ∧
    ∀ i, x.allocation.Owns p i → bitAt k.mem p.bitmapstart i = false

/-- What `krealloc` of the live block `x` to `size` bytes is to come to. -/
def KreallocRight (s : KmallocState) (x : LiveBlock) (size : Nat) (k : Kmalloc) :
    Option Nat → Prop
  | none => k.mem = s.kernel.mem ∧ ∀ z ∈ s.live, k.Holds z
  | some addr =>
    ∃ y : LiveBlock, y.allocation = ⟨addr, size, x.allocation.alignment⟩ ∧ k.Holds y ∧
      (∀ j < min x.allocation.size size,
        k.mem (addr + j) = s.kernel.mem (x.allocation.addr + j)) ∧
      (addr ≠ x.allocation.addr → k.Freed x) ∧
      ∀ z ∈ s.live, z ≠ x → k.Holds z ∧
        (z.heap = y.heap → Apart y.allocation z.allocation) ∧
        ∀ j < z.allocation.size,
          k.mem (z.allocation.addr + j) = s.kernel.mem (z.allocation.addr + j)

section

variable {s : KmallocState} {x z : LiveBlock} {h : Heap} {id : Nat} {mem mem' : Nat → Byte}
  {a : Allocation} {p : AllocationCtx} {k : Nat}

theorem Allocation.Lives.owns_bound {m : GAllocatorHeapMeta} (layout : HeapLayout h m)
    (lives : Lives m a p k) {i : Nat} (owns : a.Owns p i) : i < 8 * p.bitmapsize := by
  have placed := layout.placed _ _ lives.pool
  have inside := lives.inside
  have covered := placed.covered
  have bound := ((lives.owns placed.positive i).mp owns).2
  omega

theorem KmallocInv.holds (inv : KmallocInv s) (member : x ∈ s.live) : s.kernel.Holds x := by
  rcases inv.heap_of member with ⟨h, here, own⟩
  have kept := inv.kept _ h here
  obtain ⟨p, k, lives⟩ := kept.lives _ own
  refine ⟨h, p, k, here, by rw [kept.heapMeta]; exact lives, kept.described _ own, fun i owns => ?_⟩
  exact kept.marked _ _ lives.pool i (lives.owns_bound kept.layout owns) ⟨_, own, owns⟩

theorem readU32_memsetZero {addr n place : Nat} (low : addr ≤ place) (high : place + 4 ≤ addr + n) :
    readU32 (memsetZero mem addr n) place = 0 := by
  unfold readU32 memsetZero
  rw [if_pos (by omega), if_pos (by omega), if_pos (by omega), if_pos (by omega)]
  rfl

theorem Frees.unsigned {m : GAllocatorHeapMeta} (frees : Frees m a p k mem mem') :
    (GAllocationMeta.load mem' (a.addr - allocationMetaSize)).signature ≠ allocationSignature := by
  rcases frees.clears with ⟨cleared, -, rfl⟩
  have zero : (GAllocationMeta.load (memsetZero cleared (a.addr - allocationMetaSize)
      (a.size + allocationMetaSize)) (a.addr - allocationMetaSize)).signature = 0 :=
    readU32_memsetZero (Nat.le_refl _) (by unfold allocationMetaSize; omega)
  rw [zero]
  decide

theorem KmallocInv.freed {live' : List LiveBlock} {c : Kmalloc}
    (after : KmallocInv ⟨c, live'⟩) (there : c.heaps[x.heap]? = some h)
    (frees : Frees h.preparedMeta x.allocation p k mem c.mem) : c.Freed x := by
  have kept := after.kept _ h there
  have placed := kept.layout.placed _ _ frees.lives.pool
  refine ⟨h, p, k, there, by rw [kept.heapMeta]; exact frees.lives, frees.unsigned,
    fun i owns => ?_⟩
  rw [frees.bitAt kept.layout (frees.lives.owns_bound kept.layout owns), if_pos]
  exact (frees.lives.owns placed.positive i).mp owns

/-- What is done to one block leaves the chunk ranges of the others. -/
theorem KmallocInv.untouched (inv : KmallocInv s) (here : s.kernel.heaps[id]? = some h)
    (lives : Lives h.preparedMeta a p k) (frame : ChangesOnly p a mem mem') (member : z ∈ s.live)
    (apart : z.heap = id → Apart a z.allocation) {y : Nat} (low : z.allocation.low ≤ y)
    (high : y < z.allocation.high) : mem' y = mem y := by
  rcases inv.heap_of member with ⟨g, there, own⟩
  have kept := inv.kept id h here
  have keptThere := inv.kept _ g there
  obtain ⟨q, l, livesThere⟩ := keptThere.lives _ own
  by_cases same : z.heap = id
  · rw [same] at there
    cases here.symm.trans there
    exact frame.range_same kept.layout lives livesThere (apart same) low high
  · have away := inv.heaps_apart there here same
    have inHeap := livesThere.inHeap keptThere.layout
    apply frame.outside kept.layout lives
    unfold Heap.Apart Heap.finish at away
    omega

theorem memcpy_changesOnly (mem : Nat → Byte) {n : Nat} (lives : Lives h.preparedMeta a p k)
    (bound : n ≤ a.size) (src : Nat) : ChangesOnly p a mem (memcpy mem a.addr src n) := by
  have range := lives.range
  intro y _ out
  exact memcpy_outside mem src bound y (by omega)

theorem memcpy_inside {dest src n j : Nat} (inside : j < n) :
    memcpy mem dest src n (dest + j) = mem (src + j) := by
  unfold memcpy
  rw [if_pos (by omega), Nat.add_sub_cancel_left]

end

theorem krealloc_right {s : KmallocState} (reached : KmallocReached s) {x : LiveBlock}
    (member : x ∈ s.live) {size : Nat} (some_ : 0 < size) (small : size < 2 ^ 32) :
    ∃ result k, s.kernel.krealloc (some x.allocation.addr) size = .ok (result, k) ∧
      KreallocRight s x size k result := by
  have inv := reached.inv
  have holds : ∀ z ∈ s.live, s.kernel.Holds z := fun z => inv.holds
  obtain ⟨id, active⟩ := Option.ne_none_iff_exists'.mp (inv.used (List.ne_nil_of_mem member))
  rcases inv.active_heap active with ⟨h, there, current⟩
  rcases inv.krealloc_cases member some_ small current there with
    ⟨-, done⟩ | ⟨inside, ⟨same, done⟩ | ⟨-, ⟨-, done⟩ | ⟨-, ⟨-, done⟩ |
      ⟨addr, p, j, mem, q, l, mem', done, allocates, frees⟩⟩⟩⟩
  · exact ⟨_, _, done, rfl, holds⟩
  · refine ⟨_, _, done, x, by rw [same], holds x member, fun _ _ => rfl, fun moved => ?_,
      fun z other different => ⟨holds z other, inv.apart_of_ne member other different,
        fun _ _ => rfl⟩⟩
    exact absurd rfl moved
  · exact ⟨_, _, done, rfl, holds⟩
  · exact ⟨_, _, done, rfl, holds⟩
  · rcases (inv.inside_iff member there).mp inside with ⟨rfl, -⟩
    have kept := inv.kept _ h there
    have own := mem_liveIn.mpr member
    rcases inv.moved member there small (Nat.min_le_right _ _) allocates frees with ⟨other, moved⟩
    have copies := memcpy_changesOnly mem allocates.lives
      (Nat.min_le_right x.allocation.size size) x.allocation.addr
    have freshFrom : ∀ z ∈ s.live, z.heap = x.heap →
        Apart ⟨addr, size, x.allocation.alignment⟩ z.allocation := by
      intro z inside' same
      apply kept.fresh allocates
      rw [← same]
      exact mem_liveIn.mpr inside'
    have range := frees.lives.range
    have newRange := allocates.lives.range
    dsimp only at newRange
    refine ⟨_, _, done, ⟨x.heap, ⟨addr, size, x.allocation.alignment⟩⟩, rfl,
      moved.holds List.mem_cons_self, fun i bound => ?_, fun _ => moved.freed there frees,
      fun z inside' different => ⟨?_, freshFrom z inside', fun i bound => ?_⟩⟩
    · -- the copy is made before the old block is zeroed
      show mem' (addr + i) = _
      have kept' : mem' (addr + i) =
          memcpy mem addr x.allocation.addr (min x.allocation.size size) (addr + i) := by
        apply frees.changesOnly.range_same kept.layout frees.lives allocates.lives
          (freshFrom x member rfl).symm
        · omega
        · omega
      rw [kept', memcpy_inside bound]
      exact inv.untouched there allocates.lives allocates.changesOnly member
        (freshFrom x member) (by omega) (by omega)
    · exact moved.holds (List.mem_cons_of_mem _ ((List.mem_erase_of_ne different).mpr inside'))
    · have block := inv.block_in inside' (inv.heap_of inside').choose_spec.1
      show mem' (z.allocation.addr + i) = _
      rw [inv.untouched there frees.lives frees.changesOnly inside'
          (inv.apart_of_ne member inside' different) (by omega) (by omega),
        inv.untouched there allocates.lives copies inside' (freshFrom z inside') (by omega)
          (by omega)]
      exact inv.untouched there allocates.lives allocates.changesOnly inside'
        (freshFrom z inside') (by omega) (by omega)

theorem krealloc_right_page : ∃ s x, KmallocReached s ∧ x ∈ s.live ∧ ∃ result k,
    s.kernel.krealloc (some x.allocation.addr) 100 = .ok (result, k) ∧
      KreallocRight s x 100 k result := by
  rcases onePageBlock_reached with ⟨k, reached, -⟩
  exact ⟨_, _, reached, List.mem_cons_self, krealloc_right reached List.mem_cons_self (by decide)
    (by decide)⟩

/-- `kfree` frees the block, and `krealloc` answers NULL only if its heap has no place. -/
def KmallocState.Served (s : KmallocState) (x : LiveBlock) : Prop :=
  (∃ k, s.kernel.kfree (some x.allocation.addr) = .ok k ∧ k.Freed x) ∧
    ∀ size, 0 < size → size < 2 ^ 32 → ∃ result k,
      s.kernel.krealloc (some x.allocation.addr) size = .ok (result, k) ∧
        (result = none → size ≠ x.allocation.size ∧ ∃ h, s.kernel.heaps[x.heap]? = some h ∧
          gallocatorAllocAligned size x.allocation.alignment h s.kernel.mem =
            .ok (none, s.kernel.mem))

section

variable {s : KmallocState} {x : LiveBlock} {h : Heap} {size : Nat}

/-- Below 4 GiB only one address is aligned to 2 GiB, and there the block is. -/
theorem KmallocInv.no_place (inv : KmallocInv s) (member : x ∈ s.live)
    (there : s.kernel.heaps[x.heap]? = some h) (some_ : 0 < size)
    (last : x.allocation.alignment = 2 ^ 31) :
    gallocatorAllocAligned size x.allocation.alignment h s.kernel.mem =
      .ok (none, s.kernel.mem) := by
  have kept := inv.kept _ h there
  have own := mem_liveIn.mpr member
  have fits := h.fits
  obtain ⟨q, l, lives⟩ := kept.lives _ own
  rw [last]
  rcases gallocatorAllocAligned_cases kept.layout kept.heapMeta some_ (by decide : 31 < 32) with
    null | ⟨addr, p, k, mem', -, allocates⟩
  · exact null
  · have range := allocates.lives.range
    have inHeap := allocates.lives.inHeap kept.layout
    have ownRange := lives.range
    have ownHeap := lives.inHeap kept.layout
    have aligned := allocates.lives.aligned
    have ownAligned := lives.aligned
    rw [last] at ownAligned
    rcases aligned with ⟨m, place⟩
    rcases ownAligned with ⟨n, ownPlace⟩
    have some_ := allocates.lives.some_
    have ownSome := lives.some_
    dsimp only at place range some_
    have other := Apart.addr_ne (kept.fresh allocates own) allocates.lives lives
    dsimp only at other
    omega

theorem KmallocInv.served (inv : KmallocInv s) (member : x ∈ s.live)
    (active : s.kernel.activeHeap = some x.heap) (there : s.kernel.heaps[x.heap]? = some h)
    (short : h.finish < 2 ^ 32) : s.Served x := by
  rcases inv.active_heap active with ⟨g, here, current⟩
  cases here.symm.trans there
  have inside := (inv.inside_iff member there).mpr ⟨rfl, short⟩
  constructor
  · rcases inv.kfree_ok member there current inside with ⟨p, j, mem', done, frees⟩
    have left : KmallocInv ⟨s.kernel.released x.allocation.size mem', s.live.erase x⟩ :=
      inv.release there member frees
    exact ⟨_, done, left.freed there frees⟩
  · intro size some_ small
    rcases inv.krealloc_cases member some_ small current there with
      ⟨out, -⟩ | ⟨-, ⟨-, done⟩ | ⟨other, ⟨last, done⟩ | ⟨-, ⟨null, done⟩ |
        ⟨addr, p, j, mem, q, l, mem', done, -⟩⟩⟩⟩
    · exact absurd inside out
    · exact ⟨_, _, done, nofun⟩
    · exact ⟨_, _, done, fun _ => ⟨other, h, there, inv.no_place member there some_ last⟩⟩
    · exact ⟨_, _, done, fun _ => ⟨other, h, there, null⟩⟩
    · exact ⟨_, _, done, nofun⟩

end

theorem Kmalloc.kmallocRegisterHeap_sized (k : Kmalloc) {heap : Heap}
    (room : k.heaps.length ≠ kmallocMaxHeaps) (some_ : 0 < heap.pagespan.toNat)
    (part : heap.pagespan.toNat < 2 ^ 20) : ∃ mem, k.kmallocRegisterHeap heap =
      .ok (k.heaps.length, { k with heaps := k.heaps ++ [heap], mem }) := by
  obtain ⟨made, -, -⟩ := gallocatorInitHeap_layout some_ part k.mem
  unfold Kmalloc.kmallocRegisterHeap
  rw [if_neg room, made]
  exact ⟨_, rfl⟩

theorem kmalloc_served_iff {s : KmallocState} (reached : KmallocReached s) {x : LiveBlock}
    (member : x ∈ s.live) :
    s.Served x ↔ s.kernel.activeHeap = some x.heap ∧
      ∃ h, s.kernel.heaps[x.heap]? = some h ∧ h.finish < 2 ^ 32 := by
  have inv := reached.inv
  constructor
  · rintro ⟨⟨k, call, -⟩, -⟩
    rcases Kmalloc.kfree_inside call with ⟨h, active, inside⟩
    obtain ⟨id, number, there⟩ := Option.bind_eq_some_iff.mp active
    rcases (inv.inside_iff member there).mp inside with ⟨rfl, short⟩
    exact ⟨number, h, there, short⟩
  · rintro ⟨active, h, there, short⟩
    exact inv.served member active there short

theorem kmalloc_served_page :
    ∃ s x, KmallocReached s ∧ x ∈ s.live ∧ s.kernel.activeHeap = some x.heap ∧ s.Served x := by
  rcases onePageBlock_reached with ⟨k, reached, heaps, active⟩
  have there : k.heaps[0]? = some onePage := by
    rw [heaps]
    rfl
  exact ⟨_, _, reached, List.mem_cons_self, active,
    (kmalloc_served_iff reached List.mem_cons_self).mpr ⟨active, _, there, by decide⟩⟩

def otherPage : Heap := ⟨0xc0200000#32, 1#32, by decide⟩

/-- The heap is switched after the block is taken. -/
theorem kmalloc_panics : ∃ s x, KmallocReached s ∧ x ∈ s.live ∧
    s.kernel.kmallocOwnsVa x.allocation.addr = true ∧
    s.kernel.kfree (some x.allocation.addr) = .error .panic ∧
    s.kernel.krealloc (some x.allocation.addr) 100 = .ok (none, s.kernel) := by
  rcases onePageBlock_reached with ⟨k, reached, heaps, active⟩
  have room : k.heaps.length ≠ kmallocMaxHeaps := by
    rw [heaps]
    decide
  have apart : ∀ h ∈ k.heaps, h.Apart otherPage := by
    rw [heaps]
    rintro h member
    cases List.mem_singleton.mp member
    exact .inl (by decide)
  obtain ⟨mem, registers⟩ := @Kmalloc.kmallocRegisterHeap_sized k otherPage room (by decide)
    (by decide)
  have registered := reached.step (.registerHeap apart registers)
  have switched := registered.step (@KmallocStep.useHeap _ 1)
  rcases k with ⟨maxAlign, all, used, statistics, before⟩
  cases heaps
  exact ⟨_, _, switched, List.mem_cons_self, rfl, rfl, rfl⟩

end Dxgmx
