import Dxgmx.Mem.GallocatorInvariant
import Dxgmx.Mem.GallocatorLayout

open Library

namespace Dxgmx

open AllocationCtx Allocation

section Init

variable {heap : Heap} {mem : Nat → Byte}

theorem gallocatorInitHeap_spec (some_ : 0 < heap.pagespan.toNat)
    (whole : heap.pagespan.toNat < 2 ^ 20)
    (zeroed : ∀ x, heap.vaddr.toNat ≤ x → x < heap.vaddr.toNat + heap.pagespan.toNat * pageSize →
      mem x = 0) :
    ∃ m mem', gallocatorInitHeap heap mem = .ok (0, mem') ∧ HeapInv heap m mem' [] := by
  have fits := heap.fits
  rcases gallocatorInitHeap_layout some_ whole mem with ⟨call, layout, load⟩
  refine ⟨_, _, call, layout, load, nofun, nofun, .nil, fun c p here i inside => ?_⟩
  have bounds := pool_bounds layout here
  have clear : bitAt mem p.bitmapstart i = false := by
    unfold bitAt
    rw [zeroed _ (by omega) (by omega)]
    exact BitVec.getLsbD_zero
  rw [bitAt_congr (GAllocatorHeapMeta.store_outside _ mem (by omega)), clear]
  exact iff_of_false nofun nofun

end Init

structure HeapState where
  mem : Nat → Byte
  live : List Allocation

inductive HeapCall
  | alloc (size alignment : Nat)
  | free (addr : Nat)
  | write (addr : Nat) (value : Byte)

/-- The calls that callers may make: they ask for a byte or more, they free what is live, and they
    write into their payload. -/
inductive HeapStep (heap : Heap) : HeapState → HeapCall → HeapState → Prop
  | alloc {s : HeapState} {size e : Nat} {result : Option Nat} {mem' : Nat → Byte}
      (some_ : 0 < size) (small : size < 2 ^ 32) (low : e < 32)
      (call : gallocatorAllocAligned size (2 ^ e) heap s.mem = .ok (result, mem')) :
      HeapStep heap s (.alloc size (2 ^ e)) ⟨mem', allocated size (2 ^ e) s.live result⟩
  | free {s : HeapState} {a : Allocation} {mem' : Nat → Byte} (member : a ∈ s.live)
      (call : gallocatorFree a.addr heap s.mem = .ok mem') :
      HeapStep heap s (.free a.addr) ⟨mem', s.live.erase a⟩
  | write {s : HeapState} {a : Allocation} {x : Nat} {value : Byte} (member : a ∈ s.live)
      (low : a.addr ≤ x) (high : x < a.addr + a.size) :
      HeapStep heap s (.write x value) ⟨Function.update s.mem x value, s.live⟩

theorem HeapStep.inv {heap : Heap} {m : GAllocatorHeapMeta} {s t : HeapState} {call : HeapCall}
    (step : HeapStep heap s call t) (inv : HeapInv heap m s.mem s.live) :
    HeapInv heap m t.mem t.live := by
  cases step with
  | alloc some_ small low call =>
    obtain ⟨result, mem', done, kept⟩ := gallocatorAllocAligned_spec inv some_ small low
    cases call.symm.trans done
    exact kept
  | free member call =>
    obtain ⟨mem', done, kept⟩ := gallocatorFree_spec inv member
    cases call.symm.trans done
    exact kept
  | write member low high => exact inv.write member _ low high

/-- The payload and the metadata before it lie in the pool, and the pool in the heap. -/
def Allocation.InPool (a : Allocation) (heap : Heap) (p : AllocationCtx) : Prop :=
  heap.vaddr.toNat ≤ p.poolstart ∧ p.poolstart + allocationMetaSize ≤ a.addr ∧
    a.addr + a.size ≤ p.poolstart + p.poolchunks * p.chunksize ∧
      p.poolstart + p.poolchunks * p.chunksize ≤
        heap.vaddr.toNat + heap.pagespan.toNat * pageSize

theorem heapRun_inv {heap : Heap} {mem mem' : Nat → Byte} (some_ : 0 < heap.pagespan.toNat)
    (zeroed : ∀ x, heap.vaddr.toNat ≤ x → x < heap.vaddr.toNat + heap.pagespan.toNat * pageSize →
      mem x = 0)
    (prepared : gallocatorInitHeap heap mem = .ok (0, mem')) {calls : List HeapCall} {s : HeapState}
    (run : Run (HeapStep heap) ⟨mem', []⟩ calls s) : ∃ m, HeapInv heap m s.mem s.live := by
  have whole : heap.pagespan.toNat < 2 ^ 20 := by
    by_contra all
    have fits := heap.fits
    have pages : heap.pagespan.toNat = 2 ^ 20 := by unfold pageSize at fits; omega
    unfold gallocatorInitHeap at prepared
    rw [pages] at prepared
    cases prepared
  obtain ⟨m, start, done, init⟩ := gallocatorInitHeap_spec some_ whole zeroed
  cases prepared.symm.trans done
  exact ⟨m, run.invariant (fun s => HeapInv heap m s.mem s.live) (fun _ _ _ step => step.inv) init⟩

theorem gallocator_lends_apart {heap : Heap} {mem mem' : Nat → Byte}
    (some_ : 0 < heap.pagespan.toNat)
    (zeroed : ∀ x, heap.vaddr.toNat ≤ x → x < heap.vaddr.toNat + heap.pagespan.toNat * pageSize →
      mem x = 0)
    (prepared : gallocatorInitHeap heap mem = .ok (0, mem')) {calls : List HeapCall} {s : HeapState}
    (run : Run (HeapStep heap) ⟨mem', []⟩ calls s) :
    ∃ m, GAllocatorHeapMeta.load s.mem heap.vaddr.toNat = m ∧
      (∀ a ∈ s.live, (∃ c p, m.pool c = some p ∧ a.InPool heap p) ∧
        GAllocationMeta.load s.mem (a.addr - allocationMetaSize) = a.metadata ∧
          a.alignment ∣ a.addr) ∧
      s.live.Pairwise Apart ∧
      (∀ c p, m.pool c = some p → ∀ i < 8 * p.bitmapsize,
        bitAt s.mem p.bitmapstart i = true ↔ ∃ a ∈ s.live, a.Owns p i) ∧
      (∀ size e, 0 < size → size < 2 ^ 32 → e < 32 →
        ∃ result, gallocatorAllocAligned size (2 ^ e) heap s.mem = .ok result) ∧
      ∀ a ∈ s.live, ∃ mem'', gallocatorFree a.addr heap s.mem = .ok mem'' := by
  obtain ⟨m, inv⟩ := heapRun_inv some_ zeroed prepared run
  refine ⟨m, inv.heapMeta, fun a member => ?_, inv.apart, inv.bits, ?_, ?_⟩
  · obtain ⟨p, k, lives⟩ := inv.lives a member
    have bounds := pool_bounds inv.layout lives.pool
    have range := lives.range
    have high := lives.high_le
    refine ⟨⟨_, p, lives.pool, ?_⟩, inv.described a member, lives.aligned⟩
    unfold Allocation.InPool allocationMetaSize
    omega
  · intro size e some_ small low
    obtain ⟨result, mem', call, -⟩ := gallocatorAllocAligned_spec inv some_ small low
    exact ⟨_, call⟩
  · intro a member
    obtain ⟨mem', call, -⟩ := gallocatorFree_spec inv member
    exact ⟨_, call⟩

/-- The calls of a run over `onePage`, with the addresses that they answer. -/
def onePageReplay : Exec (Int × Option Nat × Option Nat × Option Nat) := do
  let (st, mem) ← gallocatorInitHeap onePage fun _ => 0
  let (first, mem) ← gallocatorAllocAligned 100 256 onePage mem
  let (second, mem) ← gallocatorAllocAligned 40 8 onePage mem
  let mem ← gallocatorFree 3222276352 onePage mem
  let (third, _) ← gallocatorAllocAligned 100 32 onePage mem
  pure (st, first, second, third)

theorem gallocator_lends_apart_page :
    ∃ mem' s, gallocatorInitHeap onePage (fun _ => 0) = .ok (0, mem') ∧
      Run (HeapStep onePage) ⟨mem', []⟩
        [.alloc 100 256, .alloc 40 8, .free 3222276352, .alloc 100 32] s ∧
      s.live = [⟨3222276224, 100, 32⟩, ⟨3222277120, 40, 8⟩] ∧ s.live.Pairwise Apart ∧
      ∀ a ∈ s.live, a.alignment ∣ a.addr := by
  have replay : onePageReplay = .ok (0, some 3222276352, some 3222277120, some 3222276224) := by
    decide +kernel
  obtain ⟨⟨st, mem'⟩, prepared, replay⟩ := Exec.bind_ok.mp replay
  obtain ⟨⟨first, mem1⟩, call1, replay⟩ := Exec.bind_ok.mp replay
  obtain ⟨⟨second, mem2⟩, call2, replay⟩ := Exec.bind_ok.mp replay
  obtain ⟨mem3, call3, replay⟩ := Exec.bind_ok.mp replay
  obtain ⟨⟨third, mem4⟩, call4, replay⟩ := Exec.bind_ok.mp replay
  cases replay
  have step1 := HeapStep.alloc (s := ⟨mem', []⟩) (e := 8) (show 0 < 100 by decide) (by decide)
    (by decide) call1
  have step2 := HeapStep.alloc (s := ⟨mem1, [⟨3222276352, 100, 256⟩]⟩) (e := 3)
    (show 0 < 40 by decide) (by decide) (by decide) call2
  have step3 := HeapStep.free (s := ⟨mem2, [⟨3222277120, 40, 8⟩, ⟨3222276352, 100, 256⟩]⟩)
    (a := ⟨3222276352, 100, 256⟩) (List.mem_cons_of_mem _ List.mem_cons_self) call3
  have step4 := HeapStep.alloc (s := ⟨mem3, [⟨3222277120, 40, 8⟩]⟩) (e := 5)
    (show 0 < 100 by decide) (by decide) (by decide) call4
  have run := (((Run.single step1).snoc step2).snoc step3).snoc step4
  obtain ⟨m, -, places, apart, -⟩ :=
    gallocator_lends_apart (by decide) (fun _ _ _ => rfl) prepared run
  exact ⟨mem', _, prepared, run, rfl, apart, fun a member => (places a member).2.2⟩

end Dxgmx
