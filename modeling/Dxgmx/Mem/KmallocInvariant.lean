import Mathlib.Data.List.Nodup
import Dxgmx.Mem.GallocatorLayout
import Dxgmx.Mem.GallocatorInvariant
import Dxgmx.Mem.Kmalloc

open Library

namespace Dxgmx

open AllocationCtx Allocation

/-- A live allocation and the number of the heap it is from. -/
structure LiveBlock where
  heap : Nat
  allocation : Allocation
  deriving DecidableEq

def liveIn (live : List LiveBlock) (id : Nat) : List Allocation :=
  live.filterMap fun x => if x.heap = id then some x.allocation else none

section LiveIn

variable {live : List LiveBlock} {id j : Nat} {a : Allocation}

theorem mem_liveIn : a ∈ liveIn live id ↔ ⟨id, a⟩ ∈ live := by
  unfold liveIn
  rw [List.mem_filterMap]
  constructor
  · rintro ⟨⟨h, b⟩, member, found⟩
    dsimp only at found
    split_ifs at found with same
    cases found
    cases same
    exact member
  · intro member
    exact ⟨_, member, if_pos rfl⟩

theorem liveIn_cons_self : liveIn (⟨id, a⟩ :: live) id = a :: liveIn live id := by
  simp [liveIn]

theorem liveIn_cons_other (other : id ≠ j) : liveIn (⟨id, a⟩ :: live) j = liveIn live j := by
  simp [liveIn, other]

theorem liveIn_erase_self : liveIn (live.erase ⟨id, a⟩) id = (liveIn live id).erase a := by
  induction live with
  | nil => rfl
  | cons x live ih =>
    by_cases same : x = ⟨id, a⟩
    · rw [same, List.erase_cons_head, liveIn_cons_self, List.erase_cons_head]
    · rw [List.erase_cons_tail (by simpa using same)]
      rcases x with ⟨h, b⟩
      by_cases here : h = id
      · subst here
        have different : b ≠ a := fun equal => same (by rw [equal])
        rw [liveIn_cons_self, liveIn_cons_self, List.erase_cons_tail (by simpa using different), ih]
      · rw [liveIn_cons_other here, liveIn_cons_other here, ih]

theorem liveIn_erase_other (other : id ≠ j) : liveIn (live.erase ⟨id, a⟩) j = liveIn live j := by
  induction live with
  | nil => rfl
  | cons x live ih =>
    by_cases same : x = ⟨id, a⟩
    · rw [same, List.erase_cons_head, liveIn_cons_other other]
    · rw [List.erase_cons_tail (by simpa using same)]
      rcases x with ⟨h, b⟩
      by_cases here : h = j
      · subst here
        rw [liveIn_cons_self, liveIn_cons_self, ih]
      · rw [liveIn_cons_other here, liveIn_cons_other here, ih]

end LiveIn

def Heap.finish (h : Heap) : Nat := h.vaddr.toNat + h.pagespan.toNat * pageSize

def Heap.Apart (h g : Heap) : Prop := h.finish ≤ g.vaddr.toNat ∨ g.finish ≤ h.vaddr.toNat

instance heapApart_symm : Std.Symm Heap.Apart := ⟨fun _ _ apart => apart.symm⟩

def Heap.preparedMeta (h : Heap) : GAllocatorHeapMeta := (heapSizes h).heapMeta h.vaddr.toNat

/-- No pool has 2 GiB. -/
theorem Heap.pool_lt {h : Heap} (some_ : 0 < h.pagespan.toNat) (part : h.pagespan.toNat < 2 ^ 20)
    {c : Nat} {p : AllocationCtx} (here : h.preparedMeta.pool c = some p) :
    p.poolchunks * p.chunksize < 2 ^ 31 := by
  rcases heapSizes_sizes some_ part with ⟨total, heapsize, poolsize, divided⟩
  have positive := divided.some_
  have small : (heapSizes h).poolsize < 2 ^ 32 := Nat.mod_lt _ (by decide)
  have hiRest := u32Sub_of_le (moved_le positive.2.2
    ((heapSizes h).alignedHiPool ≠ (heapSizes h).hiPool)) (by omega)
  have midRest := u32Sub_of_le (moved_le positive.2.1
    ((heapSizes h).alignedMidPool ≠ (heapSizes h).midPool)) (by omega)
  have loRest := u32Sub_of_le (moved_le positive.1
    ((heapSizes h).alignedLoPool ≠ (heapSizes h).loPool)) (by omega)
  rcases pool_cases here with ⟨-, rfl⟩ | ⟨-, rfl⟩ | ⟨-, rfl⟩
  · change u32Sub ((heapSizes h).poolsize / 4 / 32) _ * 32 < 2 ^ 31
    omega
  · change u32Sub ((heapSizes h).poolsize / 4 / 64) _ * 64 < 2 ^ 31
    omega
  · change u32Sub ((heapSizes h).poolsize / 2 / 128) _ * 128 < 2 ^ 31
    omega

structure KmallocState where
  kernel : Kmalloc
  live : List LiveBlock

structure KmallocInv (s : KmallocState) : Prop where
  alignment : ∃ e < 32, s.kernel.defaultAlignment = 2 ^ e
  active : ∀ id, s.kernel.activeHeap = some id → id < s.kernel.heaps.length
  used : s.live ≠ [] → s.kernel.activeHeap ≠ none
  placed : ∀ x ∈ s.live, x.heap < s.kernel.heaps.length
  powers : ∀ x ∈ s.live, ∃ e < 32, x.allocation.alignment = 2 ^ e
  apart : s.kernel.heaps.Pairwise Heap.Apart
  sized : ∀ h ∈ s.kernel.heaps, 0 < h.pagespan.toNat ∧ h.pagespan.toNat < 2 ^ 20
  kept : ∀ id h, s.kernel.heaps[id]? = some h →
    HeapKept h h.preparedMeta s.kernel.mem (liveIn s.live id)

section

variable {s : KmallocState} {id : Nat} {h : Heap}

theorem KmallocInv.heaps_apart (inv : KmallocInv s) {j : Nat} {g : Heap}
    (here : s.kernel.heaps[id]? = some h) (there : s.kernel.heaps[j]? = some g) (other : id ≠ j) :
    h.Apart g := by
  obtain ⟨inside, rfl⟩ := List.getElem?_eq_some_iff.mp here
  obtain ⟨inside', rfl⟩ := List.getElem?_eq_some_iff.mp there
  rcases Nat.lt_or_gt_of_ne other with before | after
  · exact List.pairwise_iff_getElem.mp inv.apart _ _ inside inside' before
  · exact (List.pairwise_iff_getElem.mp inv.apart _ _ inside' inside after).symm

theorem KmallocInv.heap_of (inv : KmallocInv s) {x : LiveBlock} (member : x ∈ s.live) :
    ∃ h, s.kernel.heaps[x.heap]? = some h ∧ x.allocation ∈ liveIn s.live x.heap :=
  ⟨_, List.getElem?_eq_getElem (inv.placed x member), mem_liveIn.mpr member⟩

theorem KmallocInv.changeIn (inv : KmallocInv s) (here : s.kernel.heaps[id]? = some h)
    {statistics : KMallocStatistics} {mem' : Nat → Byte} {live' : List LiveBlock}
    (outside : ∀ x, x < h.vaddr.toNat ∨ h.finish ≤ x → mem' x = s.kernel.mem x)
    (others : ∀ j, id ≠ j → liveIn live' j = liveIn s.live j)
    (placed : ∀ x ∈ live', x.heap < s.kernel.heaps.length)
    (powers : ∀ x ∈ live', ∃ e < 32, x.allocation.alignment = 2 ^ e)
    (used : live' ≠ [] → s.kernel.activeHeap ≠ none)
    (kept : HeapKept h h.preparedMeta mem' (liveIn live' id)) :
    KmallocInv ⟨{ s.kernel with statistics, mem := mem' }, live'⟩ := by
  refine ⟨inv.alignment, inv.active, used, placed, powers, inv.apart, inv.sized,
    fun j g there => ?_⟩
  by_cases same : id = j
  · subst same
    cases here.symm.trans there
    exact kept
  · have apart := inv.heaps_apart here there same
    show HeapKept g g.preparedMeta mem' (liveIn live' j)
    rw [others j same]
    refine (inv.kept j g there).elsewhere fun x low high => outside x ?_
    unfold Heap.Apart Heap.finish at *
    omega

theorem KmallocInv.allocate (inv : KmallocInv s) (here : s.kernel.heaps[id]? = some h)
    (active : s.kernel.activeHeap ≠ none) {statistics : KMallocStatistics} {mem' : Nat → Byte}
    {a : Allocation} {p : AllocationCtx} {k : Nat}
    (allocates : Allocates h.preparedMeta a p k s.kernel.mem mem')
    (small : a.size < 2 ^ 32) (power : ∃ e < 32, a.alignment = 2 ^ e) :
    KmallocInv ⟨{ s.kernel with statistics, mem := mem' }, ⟨id, a⟩ :: s.live⟩ := by
  have kept := inv.kept id h here
  refine inv.changeIn here (fun x out => allocates.changesOnly.outside kept.layout
    allocates.lives out) (fun j other => liveIn_cons_other other) (fun x member => ?_)
    (fun x member => ?_) (fun _ => active) ?_
  · rcases List.mem_cons.mp member with rfl | old
    · exact (List.getElem?_eq_some_iff.mp here).1
    · exact inv.placed x old
  · rcases List.mem_cons.mp member with rfl | old
    · exact power
    · exact inv.powers x old
  · rcases power with ⟨e, low, value⟩
    rw [liveIn_cons_self]
    refine kept.mark allocates ⟨small, ?_⟩
    rw [value]
    exact Nat.pow_lt_pow_right (by decide) low

theorem KmallocInv.release (inv : KmallocInv s) (here : s.kernel.heaps[id]? = some h)
    {statistics : KMallocStatistics} {mem' : Nat → Byte} {a : Allocation} {p : AllocationCtx}
    {k : Nat} (member : ⟨id, a⟩ ∈ s.live) (frees : Frees h.preparedMeta a p k s.kernel.mem mem') :
    KmallocInv ⟨{ s.kernel with statistics, mem := mem' }, s.live.erase ⟨id, a⟩⟩ := by
  have kept := inv.kept id h here
  refine inv.changeIn here (fun x out => frees.changesOnly.outside kept.layout frees.lives out)
    (fun j other => liveIn_erase_other other)
    (fun x left => inv.placed x (List.mem_of_mem_erase left))
    (fun x left => inv.powers x (List.mem_of_mem_erase left))
    (fun _ => inv.used (List.ne_nil_of_mem member)) ?_
  rw [liveIn_erase_self]
  exact kept.clear (mem_liveIn.mpr member) frees

theorem KmallocInv.fillTo (inv : KmallocInv s) {x : LiveBlock} (member : x ∈ s.live)
    {mem' : Nat → Byte} (frame : ∀ y, y < x.allocation.addr ∨ x.allocation.high < y →
      mem' y = s.kernel.mem y) :
    KmallocInv ⟨{ s.kernel with mem := mem' }, s.live⟩ := by
  rcases inv.heap_of member with ⟨h, here, inside⟩
  have kept := inv.kept _ h here
  obtain ⟨p, k, lives⟩ := kept.lives _ inside
  have range := lives.range
  have bounds := pool_bounds kept.layout lives.pool
  have high := lives.high_le
  have chunksize := lives.chunksize
  refine inv.changeIn here (fun y out => frame y ?_) (fun _ _ => rfl) inv.placed inv.powers
    inv.used (kept.fillTo inside frame)
  unfold Heap.finish at out
  omega

theorem KmallocInv.fill (inv : KmallocInv s) {x : LiveBlock} (member : x ∈ s.live)
    {mem' : Nat → Byte} (frame : ∀ y, y < x.allocation.addr ∨
      x.allocation.addr + x.allocation.size ≤ y → mem' y = s.kernel.mem y) :
    KmallocInv ⟨{ s.kernel with mem := mem' }, s.live⟩ := by
  rcases inv.heap_of member with ⟨h, here, inside⟩
  obtain ⟨p, k, lives⟩ := (inv.kept _ h here).lives _ inside
  have range := lives.range
  exact inv.fillTo member fun y out => frame y (by omega)

end

end Dxgmx
