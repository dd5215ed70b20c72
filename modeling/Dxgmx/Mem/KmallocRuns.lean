import Dxgmx.Mem.KmallocInvariant

open Library

namespace Dxgmx

open AllocationCtx Allocation

namespace Kmalloc

/-- The state after a call of the driver that was asked for `size` bytes. -/
def counted (s : Kmalloc) (size : Nat) (mem : Nat → Byte) : Kmalloc :=
  { s with
    statistics := { s.statistics with
      totalAllocations := s.statistics.totalAllocations + 1
      totalAllocated := s.statistics.totalAllocated + BitVec.ofNat 32 size }
    mem }

/-- The state after a block of `size` bytes was freed. -/
def released (s : Kmalloc) (size : Nat) (mem : Nat → Byte) : Kmalloc :=
  { s with
    statistics := { s.statistics with
      totalFrees := s.statistics.totalFrees + 1
      totalFreed := s.statistics.totalFreed + BitVec.ofNat 32 size }
    mem }

variable {s : Kmalloc} {h : Heap} {live : List Allocation} {a : Allocation}

theorem kmallocAlignedWithHeap_ok {size alignment : Nat} {result : Option Nat}
    {mem' : Nat → Byte} (call : gallocatorAllocAligned size alignment h s.mem = .ok (result, mem')) :
    s.kmallocAlignedWithHeap size alignment h = .ok (result, s.counted size mem') := by
  unfold kmallocAlignedWithHeap
  rw [call]
  rfl

theorem kmallocAlignedWithHeap_cases (kept : HeapKept h h.preparedMeta s.mem live) {size e : Nat}
    (some_ : 0 < size) (low : e < 32) :
    (gallocatorAllocAligned size (2 ^ e) h s.mem = .ok (none, s.mem) ∧
        s.kmallocAlignedWithHeap size (2 ^ e) h = .ok (none, s.counted size s.mem)) ∨
      ∃ addr p k mem', s.kmallocAlignedWithHeap size (2 ^ e) h =
          .ok (some addr, s.counted size mem') ∧
        Allocates h.preparedMeta ⟨addr, size, 2 ^ e⟩ p k s.mem mem' := by
  rcases gallocatorAllocAligned_cases kept.layout kept.heapMeta some_ low with
    call | ⟨addr, p, k, mem', call, allocates⟩
  · exact .inl ⟨call, kmallocAlignedWithHeap_ok call⟩
  · exact .inr ⟨addr, p, k, mem', kmallocAlignedWithHeap_ok call, allocates⟩

theorem gallocatorAllocationSize_eq (kept : HeapKept h h.preparedMeta s.mem live)
    (member : a ∈ live) :
    gallocatorAllocationSize a.addr h s.mem = (BitVec.ofNat 32 a.size).toInt := by
  unfold gallocatorAllocationSize
  rw [kept.heapMeta, if_neg (not_not.mpr kept.layout.signature), kept.described a member]
  rfl

theorem gallocatorAllocationAlignment_eq (kept : HeapKept h h.preparedMeta s.mem live)
    (member : a ∈ live) :
    gallocatorAllocationAlignment a.addr h s.mem = (BitVec.ofNat 32 a.alignment).toInt := by
  unfold gallocatorAllocationAlignment
  rw [kept.heapMeta, if_neg (not_not.mpr kept.layout.signature), kept.described a member]
  rfl

theorem kfreeWithHeap_frees (kept : HeapKept h h.preparedMeta s.mem live) (member : a ∈ live) :
    ∃ p k mem', s.kfreeWithHeap a.addr h = .ok (s.released a.size mem') ∧
      Frees h.preparedMeta a p k s.mem mem' := by
  obtain ⟨p, k, lives⟩ := kept.lives a member
  rcases gallocatorFree_frees kept.layout kept.heapMeta lives (kept.described a member) with
    ⟨mem', call, frees⟩
  refine ⟨p, k, mem', ?_, frees⟩
  unfold kfreeWithHeap
  rw [call, gallocatorAllocationSize_eq kept member]
  dsimp only
  rw [BitVec.ofInt_toInt]
  rfl

theorem kmallocAligned_ok {size e : Nat} {result : Option Nat} {t : Kmalloc}
    (active : s.active = some h) (some_ : 0 < size) (low : e < 32)
    (call : s.kmallocAlignedWithHeap size (2 ^ e) h = .ok (result, t))
    (aligned : result.getD 0 % 2 ^ e = 0) : s.kmallocAligned size (2 ^ e) = .ok (result, t) := by
  unfold kmallocAligned
  rw [if_neg (Nat.ne_of_gt some_), assert_bind_ok]
  refine ⟨pow_bwIsPowerOfTwo low, ?_⟩
  rw [active]
  dsimp only
  rw [Exec.bind_ok]
  refine ⟨_, call, ?_⟩
  dsimp only
  rw [assert_bind_ok]
  exact ⟨aligned, rfl⟩

/-- The assertion on the address holds, also of the null pointer. -/
theorem kmallocAligned_cases {size e : Nat} (kept : HeapKept h h.preparedMeta s.mem live)
    (active : s.active = some h) (some_ : 0 < size) (low : e < 32) :
    (gallocatorAllocAligned size (2 ^ e) h s.mem = .ok (none, s.mem) ∧
        s.kmallocAligned size (2 ^ e) = .ok (none, s.counted size s.mem)) ∨
      ∃ addr p k mem', s.kmallocAligned size (2 ^ e) = .ok (some addr, s.counted size mem') ∧
        Allocates h.preparedMeta ⟨addr, size, 2 ^ e⟩ p k s.mem mem' := by
  rcases kmallocAlignedWithHeap_cases kept some_ low with
    ⟨null, call⟩ | ⟨addr, p, k, mem', call, allocates⟩
  · exact .inl ⟨null, kmallocAligned_ok active some_ low call (Nat.zero_mod _)⟩
  · have aligned : addr % 2 ^ e = 0 := Nat.mod_eq_zero_of_dvd allocates.lives.aligned
    exact .inr ⟨addr, p, k, mem', kmallocAligned_ok active some_ low call aligned, allocates⟩

end Kmalloc

section

variable {s : KmallocState} {id : Nat} {h : Heap} {x : LiveBlock}

theorem KmallocInv.active_heap (inv : KmallocInv s) (active : s.kernel.activeHeap = some id) :
    ∃ h, s.kernel.heaps[id]? = some h ∧ s.kernel.active = some h := by
  have here := List.getElem?_eq_getElem (inv.active id active)
  refine ⟨_, here, ?_⟩
  unfold Kmalloc.active
  rw [active]
  exact here

theorem KmallocInv.block_in (inv : KmallocInv s) (member : x ∈ s.live)
    (here : s.kernel.heaps[x.heap]? = some h) :
    h.vaddr.toNat ≤ x.allocation.low ∧ x.allocation.low < x.allocation.addr ∧
      x.allocation.addr + x.allocation.size ≤ x.allocation.high ∧
        x.allocation.high ≤ h.finish ∧ 0 < x.allocation.size := by
  have kept := inv.kept _ h here
  obtain ⟨p, k, lives⟩ := kept.lives _ (mem_liveIn.mpr member)
  have range := lives.range
  have inHeap := lives.inHeap kept.layout
  have some_ := lives.some_
  unfold Heap.finish
  omega

/-- The address of a live block is inside a heap if the heap is its own and does not end at 4 GiB. -/
theorem KmallocInv.inside_iff (inv : KmallocInv s) (member : x ∈ s.live)
    (there : s.kernel.heaps[id]? = some h) :
    heapIsAddrInside x.allocation.addr h ↔ id = x.heap ∧ h.finish < 2 ^ 32 := by
  rcases inv.heap_of member with ⟨g, here, -⟩
  have block := inv.block_in member here
  have fits := h.fits
  have gFits := g.fits
  unfold heapIsAddrInside
  constructor
  · rintro ⟨low, high⟩
    have same : id = x.heap := by
      by_contra other
      have apart := inv.heaps_apart there here other
      have wraps := Nat.mod_le (h.vaddr.toNat + h.pagespan.toNat * pageSize) (2 ^ 32)
      unfold Heap.Apart Heap.finish at *
      omega
    refine ⟨same, ?_⟩
    by_contra whole
    have wraps : h.vaddr.toNat + h.pagespan.toNat * pageSize = 2 ^ 32 := by
      unfold Heap.finish at whole
      omega
    rw [wraps] at high
    exact absurd high (Nat.not_lt_zero _)
  · rintro ⟨rfl, short⟩
    cases here.symm.trans there
    unfold Heap.finish at *
    rw [Nat.mod_eq_of_lt short]
    omega

theorem KmallocInv.size_lt (inv : KmallocInv s) (member : x ∈ s.live) :
    x.allocation.size < 2 ^ 31 := by
  rcases inv.heap_of member with ⟨h, here, inside⟩
  have kept := inv.kept _ h here
  obtain ⟨p, k, lives⟩ := kept.lives _ inside
  have sized := inv.sized h (List.mem_of_getElem? here)
  have small := h.pool_lt sized.1 sized.2 lives.pool
  have range := lives.range
  have high := lives.high_le
  omega

theorem toInt_small {n : Nat} (small : n < 2 ^ 31) : (BitVec.ofNat 32 n).toInt = n := by
  rw [BitVec.toInt_eq_toNat_of_lt (by rw [BitVec.toNat_ofNat]; omega), BitVec.toNat_ofNat,
    Nat.mod_eq_of_lt (by omega)]

theorem memcpy_outside (mem : Nat → Byte) {dest n room : Nat} (src : Nat) (bound : n ≤ room)
    (y : Nat) (out : y < dest ∨ dest + room ≤ y) : memcpy mem dest src n y = mem y :=
  if_neg (by omega)

theorem ite_lt_min (m n : Nat) : (if m < n then m else n) = min m n := by
  split <;> omega

/-- What `krealloc` does with a live block: the ownership check turns it down, it has the size
    already, its alignment is negative as a `ssize_t`, there is no place, or it is moved. -/
theorem KmallocInv.krealloc_cases (inv : KmallocInv s) (member : x ∈ s.live) {size : Nat}
    (some_ : 0 < size) (small_ : size < 2 ^ 32) (active : s.kernel.active = some h)
    (there : s.kernel.heaps[id]? = some h) :
    (¬ heapIsAddrInside x.allocation.addr h ∧
        s.kernel.krealloc (some x.allocation.addr) size = .ok (none, s.kernel)) ∨
      heapIsAddrInside x.allocation.addr h ∧
      ((size = x.allocation.size ∧ s.kernel.krealloc (some x.allocation.addr) size =
          .ok (some x.allocation.addr, s.kernel)) ∨
      size ≠ x.allocation.size ∧
      ((x.allocation.alignment = 2 ^ 31 ∧
          s.kernel.krealloc (some x.allocation.addr) size = .ok (none, s.kernel)) ∨
      x.allocation.alignment ≠ 2 ^ 31 ∧
      ((gallocatorAllocAligned size x.allocation.alignment h s.kernel.mem =
            .ok (none, s.kernel.mem) ∧
          s.kernel.krealloc (some x.allocation.addr) size =
            .ok (none, s.kernel.counted size s.kernel.mem)) ∨
        ∃ addr p k mem q l mem', s.kernel.krealloc (some x.allocation.addr) size =
            .ok (some addr, (s.kernel.counted size mem).released x.allocation.size mem') ∧
          Allocates h.preparedMeta ⟨addr, size, x.allocation.alignment⟩ p k s.kernel.mem mem ∧
          Frees h.preparedMeta x.allocation q l
            (memcpy mem addr x.allocation.addr (min x.allocation.size size)) mem'))) := by
  unfold Kmalloc.krealloc
  rw [if_neg (Nat.ne_of_gt some_), active]
  dsimp only
  by_cases inside : heapIsAddrInside x.allocation.addr h
  · right
    rcases (inv.inside_iff member there).mp inside with ⟨rfl, -⟩
    have kept := inv.kept _ h there
    have own := mem_liveIn.mpr member
    have sized := inv.size_lt member
    have positive := (inv.block_in member there).2.2.2.2
    obtain ⟨e, low, power⟩ := inv.powers x member
    refine ⟨inside, ?_⟩
    rw [if_neg (not_not.mpr inside), Kmalloc.gallocatorAllocationSize_eq kept own,
      toInt_small sized, if_neg (by omega), Int.toNat_natCast,
      Kmalloc.gallocatorAllocationAlignment_eq kept own]
    by_cases same : x.allocation.size = size
    · left
      exact ⟨same.symm, if_pos same⟩
    · right
      refine ⟨Ne.symm same, ?_⟩
      rw [if_neg same]
      by_cases last : x.allocation.alignment = 2 ^ 31
      · left
        refine ⟨last, ?_⟩
        rw [last]
        rfl
      · right
        have lower : e < 31 := by
          rcases Nat.lt_or_eq_of_le (Nat.le_of_lt_succ low) with lower | rfl
          · exact lower
          · exact absurd power last
        have small : x.allocation.alignment < 2 ^ 31 := by
          rw [power]
          exact Nat.pow_lt_pow_right (by decide) lower
        refine ⟨last, ?_⟩
        rw [toInt_small small, if_neg (by omega), Int.toNat_natCast, power]
        have check : assert (bwIsPowerOfTwo (BitVec.ofNat 64 (2 ^ e))) = .ok () :=
          if_pos (pow_bwIsPowerOfTwo low)
        rw [check, Exec.ok_bind]
        rcases Kmalloc.kmallocAlignedWithHeap_cases kept some_ low with
          ⟨null, call⟩ | ⟨addr, p, k, mem, call, allocates⟩
        · left
          refine ⟨null, ?_⟩
          rw [call]
          rfl
        · right
          have copied := (kept.mark allocates ⟨small_, Nat.pow_lt_pow_right (by decide) low⟩).fill List.mem_cons_self
            (memcpy_outside mem x.allocation.addr (Nat.min_le_right x.allocation.size size))
          rcases Kmalloc.kfreeWithHeap_frees (s := { s.kernel.counted size mem with
            mem := memcpy mem addr x.allocation.addr (min x.allocation.size size) }) copied
            (List.mem_cons_of_mem _ own) with ⟨q, l, mem', freed, frees⟩
          refine ⟨addr, p, k, mem, q, l, mem', ?_, allocates, frees⟩
          rw [call, Exec.ok_bind]
          change (Kmalloc.kfreeWithHeap x.allocation.addr h { s.kernel.counted size mem with
            mem := memcpy mem addr x.allocation.addr
              (if x.allocation.size < size then x.allocation.size else size) } >>= _) = _
          rw [ite_lt_min, Exec.bind_ok]
          exact ⟨_, freed, rfl⟩
  · left
    exact ⟨inside, if_pos inside⟩

end

/-- The live blocks after a call that asked for `size` bytes. -/
def KmallocState.lent (s : KmallocState) (size alignment : Nat) : Option Nat → List LiveBlock
  | none => s.live
  | some addr => ⟨s.kernel.activeHeap.getD 0, ⟨addr, size, alignment⟩⟩ :: s.live

/-- The live blocks after `krealloc` of `x`. -/
def KmallocState.relent (s : KmallocState) (x : LiveBlock) (size : Nat) :
    Option Nat → List LiveBlock
  | none => s.live
  | some addr =>
    if addr = x.allocation.addr then s.live
    else ⟨s.kernel.activeHeap.getD 0, ⟨addr, size, x.allocation.alignment⟩⟩ :: s.live.erase x

/-- What a call for memory comes to: nothing was asked for, there is no place, or a new block. -/
inductive KmallocState.Asks (s : KmallocState) (size alignment : Nat) : Option Nat → Kmalloc → Prop
  | nothing (zero : size = 0) : s.Asks size alignment none s.kernel
  | null {h : Heap} (active : s.kernel.active = some h) (some_ : 0 < size)
      (power : ∃ e < 32, alignment = 2 ^ e)
      (refused : gallocatorAllocAligned size alignment h s.kernel.mem = .ok (none, s.kernel.mem)) :
      s.Asks size alignment none (s.kernel.counted size s.kernel.mem)
  | block {id : Nat} {h : Heap} {addr k : Nat} {p : AllocationCtx} {mem' : Nat → Byte}
      (active : s.kernel.activeHeap = some id) (here : s.kernel.heaps[id]? = some h)
      (some_ : 0 < size) (power : ∃ e < 32, alignment = 2 ^ e)
      (allocates : Allocates h.preparedMeta ⟨addr, size, alignment⟩ p k s.kernel.mem mem') :
      s.Asks size alignment (some addr) (s.kernel.counted size mem')

section

variable {s : KmallocState} {size alignment : Nat} {result : Option Nat} {k : Kmalloc}

theorem KmallocState.Asks.inv (asks : s.Asks size alignment result k) (inv : KmallocInv s)
    (small : size < 2 ^ 32) : KmallocInv ⟨k, s.lent size alignment result⟩ := by
  cases asks with
  | nothing zero => exact inv
  | null active some_ power refused =>
    exact ⟨inv.alignment, inv.active, inv.used, inv.placed, inv.powers, inv.apart, inv.sized,
      inv.kept⟩
  | block active here some_ power allocates =>
    have used : s.kernel.activeHeap ≠ none := by simp [active]
    unfold KmallocState.lent
    rw [active]
    exact inv.allocate here used allocates small power

theorem KmallocInv.kmallocAlignedWithHeap_asks (inv : KmallocInv s) {h : Heap}
    (active : s.kernel.active = some h) (some_ : 0 < size) (power : ∃ e < 32, alignment = 2 ^ e)
    (call : s.kernel.kmallocAlignedWithHeap size alignment h = .ok (result, k)) :
    s.Asks size alignment result k := by
  obtain ⟨id, number, here⟩ := Option.bind_eq_some_iff.mp active
  rcases power with ⟨e, low, rfl⟩
  rcases Kmalloc.kmallocAlignedWithHeap_cases (inv.kept id h here) some_ low with
    ⟨refused, done⟩ | ⟨addr, p, j, mem', done, allocates⟩
  · cases done.symm.trans call
    exact .null active some_ ⟨e, low, rfl⟩ refused
  · cases done.symm.trans call
    exact .block number here some_ ⟨e, low, rfl⟩ allocates

theorem KmallocInv.kmallocAligned_asks (inv : KmallocInv s) (small : alignment < 2 ^ 32)
    (call : s.kernel.kmallocAligned size alignment = .ok (result, k)) :
    s.Asks size alignment result k := by
  unfold Kmalloc.kmallocAligned at call
  by_cases zero : size = 0
  · rw [if_pos zero] at call
    cases call
    exact .nothing zero
  · rw [if_neg zero, assert_bind_ok] at call
    rcases call with ⟨power, call⟩
    split at call
    · cases call
    · rename_i h active
      obtain ⟨⟨addr, t⟩, done, checked⟩ := Exec.bind_ok.mp call
      cases (assert_bind_ok.mp checked).2
      exact inv.kmallocAlignedWithHeap_asks active (Nat.pos_of_ne_zero zero)
        (bwIsPowerOfTwo_pow small power) done

theorem KmallocInv.kmalloc_asks (inv : KmallocInv s)
    (call : s.kernel.kmalloc size = .ok (result, k)) :
    s.Asks size s.kernel.defaultAlignment result k := by
  rcases inv.alignment with ⟨e, low, value⟩
  refine inv.kmallocAligned_asks ?_ call
  rw [value]
  exact Nat.pow_lt_pow_right (by decide) low

theorem KmallocInv.kcalloc_asks (inv : KmallocInv s)
    (call : s.kernel.kcalloc size = .ok (result, k)) :
    ∃ t, s.Asks size s.kernel.defaultAlignment result t ∧
      ((result = none ∧ k = t) ∨
        ∃ addr, result = some addr ∧ k = { t with mem := memsetZero t.mem addr size }) := by
  obtain ⟨⟨addr, t⟩, done, zeroed⟩ := Exec.bind_ok.mp call
  have asks := inv.kmalloc_asks done
  cases addr with
  | none =>
    cases zeroed
    exact ⟨_, asks, .inl ⟨rfl, rfl⟩⟩
  | some addr =>
    cases zeroed
    exact ⟨_, asks, .inr ⟨addr, rfl, rfl⟩⟩

theorem KmallocInv.kreallocNull_asks (inv : KmallocInv s)
    (call : s.kernel.krealloc none size = .ok (result, k)) :
    s.Asks size s.kernel.defaultAlignment result k := by
  unfold Kmalloc.krealloc at call
  by_cases zero : size = 0
  · rw [if_pos zero] at call
    cases call
    exact .nothing zero
  · rw [if_neg zero] at call
    split at call
    · cases call
    · rename_i h active
      exact inv.kmallocAlignedWithHeap_asks active (Nat.pos_of_ne_zero zero) inv.alignment call

end

inductive KmallocCall
  | registerHeap (heap : Heap)
  | useHeap (id : Nat)
  | kmalloc (size : Nat)
  | kcalloc (size : Nat)
  | kmallocAligned (size alignment : Nat)
  | krealloc (addr : Option Nat) (size : Nat)
  | kfree (addr : Nat)
  | write (addr : Nat) (value : Byte)

/-- The calls that come back. Heaps are registered apart from each other, and callers give back or
    resize what is live and write into their payloads. -/
inductive KmallocStep : KmallocState → KmallocCall → KmallocState → Prop
  | registerHeap {s : KmallocState} {heap : Heap} {st : Int} {k : Kmalloc}
      (apart : ∀ h ∈ s.kernel.heaps, h.Apart heap)
      (call : s.kernel.kmallocRegisterHeap heap = .ok (st, k)) :
      KmallocStep s (.registerHeap heap) ⟨k, s.live⟩
  | useHeap {s : KmallocState} {id : Nat} :
      KmallocStep s (.useHeap id) ⟨(s.kernel.kmallocUseHeap id).2, s.live⟩
  | kmalloc {s : KmallocState} {size : Nat} {result : Option Nat} {k : Kmalloc}
      (small : size < 2 ^ 32) (call : s.kernel.kmalloc size = .ok (result, k)) :
      KmallocStep s (.kmalloc size) ⟨k, s.lent size s.kernel.defaultAlignment result⟩
  | kcalloc {s : KmallocState} {size : Nat} {result : Option Nat} {k : Kmalloc}
      (small : size < 2 ^ 32) (call : s.kernel.kcalloc size = .ok (result, k)) :
      KmallocStep s (.kcalloc size) ⟨k, s.lent size s.kernel.defaultAlignment result⟩
  | kmallocAligned {s : KmallocState} {size alignment : Nat} {result : Option Nat} {k : Kmalloc}
      (small : size < 2 ^ 32) (narrow : alignment < 2 ^ 32)
      (call : s.kernel.kmallocAligned size alignment = .ok (result, k)) :
      KmallocStep s (.kmallocAligned size alignment) ⟨k, s.lent size alignment result⟩
  | kreallocNull {s : KmallocState} {size : Nat} {result : Option Nat} {k : Kmalloc}
      (small : size < 2 ^ 32) (call : s.kernel.krealloc none size = .ok (result, k)) :
      KmallocStep s (.krealloc none size) ⟨k, s.lent size s.kernel.defaultAlignment result⟩
  | krealloc {s : KmallocState} {x : LiveBlock} {size : Nat} {result : Option Nat} {k : Kmalloc}
      (member : x ∈ s.live) (small : size < 2 ^ 32)
      (call : s.kernel.krealloc (some x.allocation.addr) size = .ok (result, k)) :
      KmallocStep s (.krealloc (some x.allocation.addr) size) ⟨k, s.relent x size result⟩
  | kfree {s : KmallocState} {x : LiveBlock} {k : Kmalloc} (member : x ∈ s.live)
      (call : s.kernel.kfree (some x.allocation.addr) = .ok k) :
      KmallocStep s (.kfree x.allocation.addr) ⟨k, s.live.erase x⟩
  | write {s : KmallocState} {x : LiveBlock} {y : Nat} {value : Byte} (member : x ∈ s.live)
      (low : x.allocation.addr ≤ y) (high : y < x.allocation.addr + x.allocation.size) :
      KmallocStep s (.write y value)
        ⟨{ s.kernel with mem := Function.update s.kernel.mem y value }, s.live⟩

section

variable {s t : KmallocState} {call : KmallocCall}

/-- A heap without a page, or of the whole address space, is turned down. -/
theorem gallocatorInitHeap_sized {heap : Heap} {mem mem' : Nat → Byte} {st : Int}
    (call : gallocatorInitHeap heap mem = .ok (st, mem')) (done : 0 ≤ st) :
    0 < heap.pagespan.toNat ∧ heap.pagespan.toNat < 2 ^ 20 := by
  have fits := heap.fits
  unfold pageSize at fits
  constructor
  · by_contra none
    have zero : heap.pagespan.toNat = 0 := by omega
    unfold gallocatorInitHeap at call
    rw [zero] at call
    cases call
    exact absurd done (by decide)
  · by_contra all
    have whole : heap.pagespan.toNat = 2 ^ 20 := by omega
    rw [gallocatorInitHeap_whole whole] at call
    cases call
    exact absurd done (by decide)

theorem KmallocInv.registerHeap (inv : KmallocInv s) {heap : Heap} {st : Int} {k : Kmalloc}
    (apart : ∀ h ∈ s.kernel.heaps, h.Apart heap)
    (call : s.kernel.kmallocRegisterHeap heap = .ok (st, k)) : KmallocInv ⟨k, s.live⟩ := by
  unfold Kmalloc.kmallocRegisterHeap at call
  split_ifs at call with full
  · cases call
    exact inv
  obtain ⟨⟨ready, mem⟩, prepared, rest⟩ := Exec.bind_ok.mp call
  obtain ⟨done, result⟩ := assert_bind_ok.mp rest
  cases result
  have sized := gallocatorInitHeap_sized prepared done
  rcases gallocatorInitHeap_layout sized.1 sized.2 s.kernel.mem with ⟨made, layout, loaded⟩
  cases prepared.symm.trans made
  obtain ⟨p, pool⟩ := pool_chunksizeFor heap.preparedMeta 0
  have bounds := pool_bounds layout pool
  refine ⟨inv.alignment, fun id active => ?_, inv.used, fun x member => ?_, inv.powers, ?_, ?_,
    fun id h here => ?_⟩
  · have old := inv.active id active
    simp only [List.length_append, List.length_singleton]
    omega
  · have old := inv.placed x member
    simp only [List.length_append, List.length_singleton]
    omega
  · rw [List.pairwise_append]
    refine ⟨inv.apart, List.pairwise_singleton _ _, fun h old g new => ?_⟩
    rw [List.mem_singleton.mp new]
    exact apart h old
  · intro h member
    rcases List.mem_append.mp member with old | new
    · exact inv.sized h old
    · rw [List.mem_singleton.mp new]
      exact sized
  · dsimp only at here
    rw [List.getElem?_append] at here
    split_ifs at here with old
    · have away := apart h (List.mem_of_getElem? here)
      refine (inv.kept id h here).elsewhere fun x low high => ?_
      apply GAllocatorHeapMeta.store_outside
      unfold Heap.Apart Heap.finish at away
      omega
    · obtain ⟨place, rfl⟩ := List.getElem?_eq_some_iff.mp here
      have none : liveIn s.live id = [] := by
        rw [List.eq_nil_iff_forall_not_mem]
        exact fun a member => old (inv.placed _ (mem_liveIn.mp member))
      rw [List.getElem_singleton]
      show HeapKept heap heap.preparedMeta _ (liveIn s.live id)
      rw [none]
      exact ⟨layout, loaded, List.forall_mem_nil _, List.forall_mem_nil _, .nil, by simp⟩

theorem KmallocInv.useHeap (inv : KmallocInv s) (id : Nat) :
    KmallocInv ⟨(s.kernel.kmallocUseHeap id).2, s.live⟩ := by
  unfold Kmalloc.kmallocUseHeap
  split_ifs with beyond
  · exact inv
  · refine ⟨inv.alignment, fun j active => ?_, fun _ => nofun, inv.placed, inv.powers, inv.apart,
      inv.sized, inv.kept⟩
    cases active
    exact Nat.lt_of_not_le beyond

theorem KmallocInv.kcalloc (inv : KmallocInv s) {size : Nat} {result : Option Nat} {k : Kmalloc}
    (small : size < 2 ^ 32) (call : s.kernel.kcalloc size = .ok (result, k)) :
    KmallocInv ⟨k, s.lent size s.kernel.defaultAlignment result⟩ := by
  rcases inv.kcalloc_asks call with ⟨t, asks, ⟨rfl, rfl⟩ | ⟨addr, rfl, rfl⟩⟩
  · exact asks.inv inv small
  · exact (asks.inv inv small).fill List.mem_cons_self fun y out => memsetZero_outside _ out

theorem Apart.addr_ne {m : GAllocatorHeapMeta} {a b : Allocation} {p q : AllocationCtx} {k l : Nat}
    (apart : Apart a b) (here : Lives m a p k) (there : Lives m b q l) : a.addr ≠ b.addr := by
  have range := here.range
  have otherRange := there.range
  have some_ := here.some_
  have otherSome := there.some_
  unfold Apart at apart
  omega

theorem KmallocInv.apart_of_ne (inv : KmallocInv s) {x z : LiveBlock} (member : x ∈ s.live)
    (other : z ∈ s.live) (different : z ≠ x) (same : z.heap = x.heap) : Apart x.allocation z.allocation := by
  rcases inv.heap_of member with ⟨h, here, own⟩
  refine (inv.kept _ h here).apart_of_ne own ?_ fun equal => different ?_
  · rw [← same]
    exact mem_liveIn.mpr other
  · cases x
    cases z
    cases same
    cases equal
    rfl

theorem KmallocInv.addr_inj (inv : KmallocInv s) {x z : LiveBlock} (member : x ∈ s.live)
    (other : z ∈ s.live) (same : z.allocation.addr = x.allocation.addr) : z = x := by
  rcases inv.heap_of member with ⟨h, here, own⟩
  rcases inv.heap_of other with ⟨g, there, owned⟩
  obtain ⟨p, k, lives⟩ := (inv.kept _ h here).lives _ own
  obtain ⟨q, l, livesThere⟩ := (inv.kept _ g there).lives _ owned
  by_contra different
  by_cases heap : z.heap = x.heap
  · rw [heap] at there
    cases here.symm.trans there
    exact Apart.addr_ne (inv.apart_of_ne member other different heap) lives livesThere same.symm
  · have apart := inv.heaps_apart there here heap
    have block := inv.block_in member here
    have otherBlock := inv.block_in other there
    unfold Heap.Apart at apart
    omega

/-- The new block is apart from the old one, and the old one is given back. -/
theorem KmallocInv.moved (inv : KmallocInv s) {x : LiveBlock} (member : x ∈ s.live) {h : Heap}
    (here : s.kernel.heaps[x.heap]? = some h) {size addr k l n : Nat} (small : size < 2 ^ 32)
    (bound : n ≤ size) {p q : AllocationCtx} {mem mem' : Nat → Byte}
    (allocates : Allocates h.preparedMeta ⟨addr, size, x.allocation.alignment⟩ p k s.kernel.mem mem)
    (frees : Frees h.preparedMeta x.allocation q l (memcpy mem addr x.allocation.addr n) mem') :
    addr ≠ x.allocation.addr ∧
      KmallocInv ⟨(s.kernel.counted size mem).released x.allocation.size mem',
        ⟨x.heap, ⟨addr, size, x.allocation.alignment⟩⟩ :: s.live.erase x⟩ := by
  have own := mem_liveIn.mpr member
  have kept := inv.kept _ h here
  have apart := kept.fresh allocates own
  have other : addr ≠ x.allocation.addr := Apart.addr_ne apart allocates.lives frees.lives
  refine ⟨other, ?_⟩
  have erased : (⟨x.heap, ⟨addr, size, x.allocation.alignment⟩⟩ :: s.live).erase x =
      ⟨x.heap, ⟨addr, size, x.allocation.alignment⟩⟩ :: s.live.erase x := by
    apply List.erase_cons_tail
    rw [beq_iff_eq]
    exact fun same => other (congrArg (fun y => y.allocation.addr) same)
  have lent : KmallocInv ⟨s.kernel.counted size mem,
      ⟨x.heap, ⟨addr, size, x.allocation.alignment⟩⟩ :: s.live⟩ :=
    inv.allocate here (inv.used (List.ne_nil_of_mem member)) allocates small (inv.powers x member)
  have copied := lent.fill List.mem_cons_self (memcpy_outside mem x.allocation.addr bound)
  rw [← erased]
  exact copied.release here (List.mem_cons_of_mem _ member) frees

theorem KmallocInv.krealloc (inv : KmallocInv s) {x : LiveBlock} (member : x ∈ s.live)
    {size : Nat} (small : size < 2 ^ 32) {result : Option Nat} {k : Kmalloc}
    (call : s.kernel.krealloc (some x.allocation.addr) size = .ok (result, k)) :
    KmallocInv ⟨k, s.relent x size result⟩ := by
  by_cases zero : size = 0
  · unfold Kmalloc.krealloc at call
    rw [if_pos zero] at call
    cases call
    exact inv
  obtain ⟨id, active⟩ := Option.ne_none_iff_exists'.mp (inv.used (List.ne_nil_of_mem member))
  rcases inv.active_heap active with ⟨h, there, current⟩
  rcases inv.krealloc_cases member (Nat.pos_of_ne_zero zero) small current there with
    ⟨-, done⟩ | ⟨inside, ⟨same, done⟩ | ⟨-, ⟨-, done⟩ | ⟨-, ⟨-, done⟩ |
      ⟨addr, p, j, mem, q, l, mem', done, allocates, frees⟩⟩⟩⟩
  · cases done.symm.trans call
    exact inv
  · cases done.symm.trans call
    unfold KmallocState.relent
    dsimp only
    rw [if_pos rfl]
    exact inv
  · cases done.symm.trans call
    exact inv
  · cases done.symm.trans call
    exact ⟨inv.alignment, inv.active, inv.used, inv.placed, inv.powers, inv.apart, inv.sized,
      inv.kept⟩
  · cases done.symm.trans call
    rcases (inv.inside_iff member there).mp inside with ⟨rfl, -⟩
    rcases inv.moved member there small (Nat.min_le_right _ _) allocates frees with ⟨other, moved⟩
    unfold KmallocState.relent
    dsimp only
    rw [if_neg other, active]
    exact moved

theorem KmallocInv.kfree_ok (inv : KmallocInv s) {x : LiveBlock} (member : x ∈ s.live) {id : Nat}
    {h : Heap} (there : s.kernel.heaps[id]? = some h) (active : s.kernel.active = some h)
    (inside : heapIsAddrInside x.allocation.addr h) :
    ∃ p k mem', s.kernel.kfree (some x.allocation.addr) =
        .ok (s.kernel.released x.allocation.size mem') ∧
      Frees h.preparedMeta x.allocation p k s.kernel.mem mem' := by
  rcases (inv.inside_iff member there).mp inside with ⟨rfl, -⟩
  rcases Kmalloc.kfreeWithHeap_frees (inv.kept _ h there) (mem_liveIn.mpr member) with
    ⟨p, k, mem', freed, frees⟩
  refine ⟨p, k, mem', ?_, frees⟩
  unfold Kmalloc.kfree
  rw [active]
  dsimp only
  rw [assert_bind_ok]
  exact ⟨inside, freed⟩

theorem Kmalloc.kfree_inside {k k' : Kmalloc} {addr : Nat} (call : k.kfree (some addr) = .ok k') :
    ∃ h, k.active = some h ∧ heapIsAddrInside addr h := by
  unfold Kmalloc.kfree at call
  split at call
  · cases call
  · rename_i a same
    cases same
    split at call
    · cases call
    · rename_i h active
      exact ⟨h, active, (assert_bind_ok.mp call).1⟩

theorem KmallocInv.kfree (inv : KmallocInv s) {x : LiveBlock} (member : x ∈ s.live) {k : Kmalloc}
    (call : s.kernel.kfree (some x.allocation.addr) = .ok k) :
    KmallocInv ⟨k, s.live.erase x⟩ := by
  rcases Kmalloc.kfree_inside call with ⟨h, active, inside⟩
  obtain ⟨id, number, there⟩ := Option.bind_eq_some_iff.mp active
  rcases inv.kfree_ok member there active inside with ⟨p, j, mem', done, frees⟩
  cases done.symm.trans call
  rcases (inv.inside_iff member there).mp inside with ⟨rfl, -⟩
  exact inv.release there member frees

theorem KmallocStep.inv (step : KmallocStep s call t) (inv : KmallocInv s) : KmallocInv t := by
  cases step with
  | registerHeap apart call => exact inv.registerHeap apart call
  | useHeap => exact inv.useHeap _
  | kmalloc small call => exact (inv.kmalloc_asks call).inv inv small
  | kcalloc small call => exact inv.kcalloc small call
  | kmallocAligned small narrow call => exact (inv.kmallocAligned_asks narrow call).inv inv small
  | kreallocNull small call => exact (inv.kreallocNull_asks call).inv inv small
  | krealloc member small call => exact inv.krealloc member small call
  | kfree member call => exact inv.kfree member call
  | write member low high =>
    exact inv.fill member fun z out => Function.update_of_ne (by omega) _ _

theorem kmallocInit_inv {maxAlign : Nat} {mem : Nat → Byte} {k : Kmalloc}
    (small : maxAlign < 2 ^ 32) (init : kmallocInit maxAlign mem = (0, k)) :
    KmallocInv ⟨k, []⟩ := by
  unfold kmallocInit at init
  split_ifs at init with power
  · cases init
    exact ⟨bwIsPowerOfTwo_pow small power, nofun, fun some_ => absurd rfl some_, nofun, nofun, .nil,
      nofun, nofun⟩
  · have failed : (-22 : Int) = 0 := congrArg Prod.fst init
    exact absurd failed (by decide)

/-- Every state that calls lead to from `kmalloc_init` on. -/
def KmallocReached (s : KmallocState) : Prop :=
  ∃ maxAlign mem k calls, maxAlign < 2 ^ 32 ∧ kmallocInit maxAlign mem = (0, k) ∧
    Run KmallocStep ⟨k, []⟩ calls s

theorem KmallocReached.inv (reached : KmallocReached s) : KmallocInv s := by
  rcases reached with ⟨maxAlign, mem, k, calls, small, init, run⟩
  exact run.invariant KmallocInv (fun _ _ _ step => step.inv) (kmallocInit_inv small init)

theorem KmallocReached.step (reached : KmallocReached s) (step : KmallocStep s call t) :
    KmallocReached t := by
  rcases reached with ⟨maxAlign, mem, k, calls, small, init, run⟩
  exact ⟨maxAlign, mem, k, _, small, init, run.snoc step⟩

theorem Kmalloc.kmallocRegisterHeap_ok {k k' : Kmalloc} {heap : Heap} {st : Int}
    (room : k.heaps.length ≠ kmallocMaxHeaps)
    (call : k.kmallocRegisterHeap heap = .ok (st, k')) :
    ∃ mem, k' = { k with heaps := k.heaps ++ [heap], mem } := by
  unfold Kmalloc.kmallocRegisterHeap at call
  rw [if_neg room] at call
  obtain ⟨⟨ready, mem⟩, -, rest⟩ := Exec.bind_ok.mp call
  obtain ⟨-, result⟩ := assert_bind_ok.mp rest
  cases result
  exact ⟨mem, rfl⟩

theorem onePage_ready {id : Int} {k : Kmalloc}
    (registers : (kmallocInit 16 fun _ => 0).2.kmallocRegisterHeap onePage = .ok (id, k)) :
    KmallocReached ⟨(k.kmallocUseHeap 0).2, []⟩ := by
  have boot : KmallocReached ⟨(kmallocInit 16 fun _ => 0).2, []⟩ :=
    ⟨16, fun _ => 0, _, [], by decide, rfl, .refl _⟩
  exact (boot.step (.registerHeap nofun registers)).step (@KmallocStep.useHeap _ 0)

/-- A block of 40 bytes is taken of the one page that is registered. -/
def onePageBlock : Exec (Int × Option Nat) := do
  let (id, k) ← (kmallocInit 16 fun _ => 0).2.kmallocRegisterHeap onePage
  let (addr, _) ← (k.kmallocUseHeap 0).2.kmalloc 40
  pure (id, addr)

theorem onePageBlock_reached : ∃ k, KmallocReached ⟨k, [⟨0, ⟨3222277120, 40, 16⟩⟩]⟩ ∧
    k.heaps = [onePage] ∧ k.activeHeap = some 0 := by
  have replay : onePageBlock = .ok (0, some 3222277120) := by decide +kernel
  obtain ⟨⟨id, k⟩, registers, replay⟩ := Exec.bind_ok.mp replay
  obtain ⟨⟨addr, k'⟩, takes, replay⟩ := Exec.bind_ok.mp replay
  cases replay
  have ready := onePage_ready registers
  obtain ⟨mem, rfl⟩ := Kmalloc.kmallocRegisterHeap_ok (by decide) registers
  have asks := ready.inv.kmalloc_asks takes
  have step := @KmallocStep.kmalloc ⟨_, []⟩ 40 _ _ (by decide) takes
  refine ⟨k', ready.step step, ?_⟩
  cases asks with
  | block active here some_ power allocates => exact ⟨rfl, rfl⟩

end

end Dxgmx
