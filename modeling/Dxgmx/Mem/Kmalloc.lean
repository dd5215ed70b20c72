import Dxgmx.Mem.Gallocator
import Dxgmx.Utils.Bitwise

open Library

namespace Dxgmx

structure KMallocStatistics where
  totalAllocations : BitVec 32
  totalFrees : BitVec 32
  totalAllocated : BitVec 32
  totalFreed : BitVec 32
  deriving DecidableEq, Repr

def kmallocMaxHeaps : Nat := 4

/-- The globals of `kmalloc` and the memory. `g_active_heap` points at an element of `g_heaps`. -/
structure Kmalloc where
  defaultAlignment : Nat
  heaps : List Heap
  activeHeap : Option Nat
  statistics : KMallocStatistics
  mem : Nat → Byte

def Kmalloc.active (s : Kmalloc) : Option Heap := s.activeHeap.bind fun id => s.heaps[id]?

/-- A heap that ends at 4 GiB ends at address 0. -/
def heapIsAddrInside (addr : Nat) (heap : Heap) : Prop :=
  heap.vaddr.toNat ≤ addr ∧ addr < (heap.vaddr.toNat + heap.pagespan.toNat * pageSize) % 2 ^ 32

instance heapIsAddrInside_decidable (addr : Nat) (heap : Heap) :
    Decidable (heapIsAddrInside addr heap) :=
  inferInstanceAs (Decidable (_ ∧ _))

/-- The alignment of `max_align_t` is the compiler's. The rest is zero at boot. -/
def kmallocInit (maxAlign : Nat) (mem : Nat → Byte) : Int × Kmalloc :=
  if bwIsPowerOfTwo (BitVec.ofNat 64 maxAlign) then (0, ⟨maxAlign, [], none, ⟨0, 0, 0, 0⟩, mem⟩)
  else (-22, ⟨maxAlign, [], none, ⟨0, 0, 0, 0⟩, mem⟩)

namespace Kmalloc

def kmallocAlignedWithHeap (size alignment : Nat) (heap : Heap) (s : Kmalloc) :
    Exec (Option Nat × Kmalloc) := do
  let (addr, mem) ← gallocatorAllocAligned size alignment heap s.mem
  pure (addr, { s with
    statistics := { s.statistics with
      totalAllocations := s.statistics.totalAllocations + 1
      totalAllocated := s.statistics.totalAllocated + BitVec.ofNat 32 size }
    mem })

def kfreeWithHeap (addr : Nat) (heap : Heap) (s : Kmalloc) : Exec Kmalloc := do
  let size := gallocatorAllocationSize addr heap s.mem
  let mem ← gallocatorFree addr heap s.mem
  pure { s with
    statistics := { s.statistics with
      totalFrees := s.statistics.totalFrees + 1
      totalFreed := s.statistics.totalFreed + BitVec.ofInt 32 size }
    mem }

/-- Where `init_heap` fails, `TODO_FATAL` stops the kernel. -/
def kmallocRegisterHeap (heap : Heap) (s : Kmalloc) : Exec (Int × Kmalloc) :=
  if s.heaps.length = kmallocMaxHeaps then .ok (-28, s)
  else do
    let (st, mem) ← gallocatorInitHeap heap s.mem
    assert (0 ≤ st)
    pure (s.heaps.length, { s with heaps := s.heaps ++ [heap], mem })

def kmallocUseHeap (id : Nat) (s : Kmalloc) : Int × Kmalloc :=
  if s.heaps.length ≤ id then (-22, s) else (0, { s with activeHeap := some id })

def kmallocOwnsVa (va : Nat) (s : Kmalloc) : Bool :=
  s.heaps.any fun heap => heapIsAddrInside va heap

/-- Null pointers are `none`. -/
def kmallocAligned (size alignment : Nat) (s : Kmalloc) : Exec (Option Nat × Kmalloc) :=
  if size = 0 then .ok (none, s)
  else do
    assert (bwIsPowerOfTwo (BitVec.ofNat 64 alignment))
    match s.active with
    | none => .error .fault
    | some heap => do
      let (addr, s) ← s.kmallocAlignedWithHeap size alignment heap
      assert (addr.getD 0 % alignment = 0)
      pure (addr, s)

def kmalloc (size : Nat) (s : Kmalloc) : Exec (Option Nat × Kmalloc) :=
  s.kmallocAligned size s.defaultAlignment

def kcalloc (size : Nat) (s : Kmalloc) : Exec (Option Nat × Kmalloc) := do
  let (addr, s) ← s.kmalloc size
  match addr with
  | none => pure (none, s)
  | some addr => pure (some addr, { s with mem := memsetZero s.mem addr size })

def kfree (addr : Option Nat) (s : Kmalloc) : Exec Kmalloc :=
  match addr with
  | none => .error .panic
  | some addr =>
    match s.active with
    | none => .error .fault
    | some heap => do
      assert (heapIsAddrInside addr heap)
      s.kfreeWithHeap addr heap

end Kmalloc

/-- The places do not overlap where it is called. -/
def memcpy (mem : Nat → Byte) (dest src n : Nat) : Nat → Byte := fun a =>
  if dest ≤ a ∧ a < dest + n then mem (src + (a - dest)) else mem a

/-- The driver has no `realloc` of its own. -/
def Kmalloc.krealloc (addr : Option Nat) (size : Nat) (s : Kmalloc) :
    Exec (Option Nat × Kmalloc) :=
  if size = 0 then .ok (none, s)
  else
    match s.active with
    | none => .error .fault
    | some heap =>
      match addr with
      | none => s.kmallocAlignedWithHeap size s.defaultAlignment heap
      | some addr =>
        if ¬ heapIsAddrInside addr heap then .ok (none, s)
        else if gallocatorAllocationSize addr heap s.mem ≤ 0 then .ok (none, s)
        else
          let prevsize := (gallocatorAllocationSize addr heap s.mem).toNat
          if prevsize = size then .ok (some addr, s)
          else if gallocatorAllocationAlignment addr heap s.mem < 0 then .ok (none, s)
          else do
            let alignment := (gallocatorAllocationAlignment addr heap s.mem).toNat
            assert (bwIsPowerOfTwo (BitVec.ofNat 64 alignment))
            let (ret, s) ← s.kmallocAlignedWithHeap size alignment heap
            match ret with
            | none => pure (none, s)
            | some ret => do
              let mem := memcpy s.mem ret addr (if prevsize < size then prevsize else size)
              let s ← { s with mem }.kfreeWithHeap addr heap
              pure (some ret, s)

namespace KMallocStatistics

/-- What `kmalloc_dump_statistics` reports as current. -/
def currentAllocations (statistics : KMallocStatistics) : BitVec 32 :=
  statistics.totalAllocations - statistics.totalFrees

def currentAllocated (statistics : KMallocStatistics) : BitVec 32 :=
  statistics.totalAllocated - statistics.totalFreed

end KMallocStatistics

end Dxgmx
