import Mathlib.Algebra.BigOperators.Group.List.Basic
import Mathlib.Data.BitVec
import Mathlib.Tactic.Ring
import Dxgmx.Mem.GallocatorCompleteness
import Dxgmx.Mem.KmallocRuns

open Library

namespace Dxgmx

def liveSize (live : List LiveBlock) : Nat := (live.map fun x => x.allocation.size).sum

/-- The statistics report `n` allocations of `total` bytes as current. -/
def KMallocStatistics.Reports (statistics : KMallocStatistics) (n total : Nat) : Prop :=
  statistics.currentAllocations = BitVec.ofNat 32 n ∧
    statistics.currentAllocated = BitVec.ofNat 32 total

def KmallocState.StatisticsRight (s : KmallocState) : Prop :=
  s.kernel.statistics.Reports s.live.length (liveSize s.live)

/-- The calls that come to the driver, with the size and the alignment that it is asked for. -/
inductive KmallocState.Request (s : KmallocState) : KmallocCall → Nat → Nat → Prop
  | kmalloc {size : Nat} (some_ : 0 < size) :
      s.Request (.kmalloc size) size s.kernel.defaultAlignment
  | kcalloc {size : Nat} (some_ : 0 < size) :
      s.Request (.kcalloc size) size s.kernel.defaultAlignment
  | kmallocAligned {size alignment : Nat} (some_ : 0 < size) :
      s.Request (.kmallocAligned size alignment) size alignment
  | kreallocNull {size : Nat} (some_ : 0 < size) :
      s.Request (.krealloc none size) size s.kernel.defaultAlignment
  | krealloc {x : LiveBlock} {size : Nat} {h : Heap} (member : x ∈ s.live) (some_ : 0 < size)
      (active : s.kernel.active = some h) (inside : heapIsAddrInside x.allocation.addr h)
      (other : size ≠ x.allocation.size) (signed : x.allocation.alignment ≠ 2 ^ 31) :
      s.Request (.krealloc (some x.allocation.addr) size) size x.allocation.alignment

/-- The active heap has a place for what the driver is asked for. -/
def KmallocState.Finds (s : KmallocState) (call : KmallocCall) : Prop :=
  ∀ size alignment, s.Request call size alignment → ∃ h, s.kernel.active = some h ∧
    h.preparedMeta.HasPlace s.kernel.mem size alignment

section Reports

variable {k : Kmalloc} {n total size : Nat} {mem : Nat → Byte}

theorem Reports.counted (right : k.statistics.Reports n total) :
    (k.counted size mem).statistics.Reports (n + 1) (size + total) := by
  rcases right with ⟨allocations, allocated⟩
  unfold KMallocStatistics.currentAllocations KMallocStatistics.currentAllocated at *
  constructor
  · show k.statistics.totalAllocations + 1 - k.statistics.totalFrees = _
    rw [BitVec.ofNat_add, ← allocations]
    exact add_sub_right_comm _ _ _
  · show k.statistics.totalAllocated + BitVec.ofNat 32 size - k.statistics.totalFreed = _
    rw [BitVec.ofNat_add, ← allocated]
    ring

theorem Reports.released (right : k.statistics.Reports (n + 1) (size + total)) :
    (k.released size mem).statistics.Reports n total := by
  rcases right with ⟨allocations, allocated⟩
  unfold KMallocStatistics.currentAllocations KMallocStatistics.currentAllocated at *
  rw [BitVec.ofNat_add, sub_eq_iff_eq_add] at allocations allocated
  constructor
  · show k.statistics.totalAllocations - (k.statistics.totalFrees + 1) = _
    rw [allocations]
    show _ + 1#32 + _ - (_ + 1#32) = _
    ring
  · show k.statistics.totalAllocated - (k.statistics.totalFreed + BitVec.ofNat 32 size) = _
    rw [allocated]
    ring

/-- A call that the driver refuses is counted nevertheless. -/
theorem Reports.refused (right : k.statistics.Reports n total) :
    ¬(k.counted size mem).statistics.Reports n total := by
  rintro ⟨allocations, -⟩
  have before := right.1
  unfold KMallocStatistics.currentAllocations at *
  change k.statistics.totalAllocations + 1 - k.statistics.totalFrees = _ at allocations
  rw [← before, add_sub_right_comm] at allocations
  exact absurd (add_eq_left.mp allocations) (by decide)

end Reports

section

variable {s t : KmallocState} {size alignment : Nat} {result : Option Nat} {k : Kmalloc}
  {call : KmallocCall}

theorem liveSize_erase {live : List LiveBlock} {x : LiveBlock} (member : x ∈ live) :
    (live.erase x).length + 1 = live.length ∧
      x.allocation.size + liveSize (live.erase x) = liveSize live := by
  constructor
  · rw [List.length_erase_of_mem member]
    exact Nat.sub_add_cancel (List.length_pos_of_mem member)
  · exact List.sum_map_erase (fun y => y.allocation.size) member

/-- A call that asks the driver for memory leaves the statistics right if there is a place. -/
theorem KmallocState.Asks.statistics (asks : s.Asks size alignment result k) (inv : KmallocInv s)
    (right : s.StatisticsRight) :
    KmallocState.StatisticsRight ⟨k, s.lent size alignment result⟩ ↔
      (0 < size → ∃ h, s.kernel.active = some h ∧
        h.preparedMeta.HasPlace s.kernel.mem size alignment) := by
  cases asks with
  | nothing zero => exact iff_of_true right fun some_ => absurd zero (Nat.ne_of_gt some_)
  | @null h active some_ power refused =>
    rcases power with ⟨e, low, rfl⟩
    obtain ⟨id, number, here⟩ := Option.bind_eq_some_iff.mp active
    have kept := inv.kept id h here
    refine iff_of_false (Reports.refused right) fun place => ?_
    rcases place some_ with ⟨g, current, place⟩
    cases active.symm.trans current
    exact gallocatorAllocAligned_refuses kept.layout kept.heapMeta some_ low refused place
  | @block id h addr j p mem' active here some_ power allocates =>
    rcases power with ⟨e, low, rfl⟩
    have current : s.kernel.active = some h := by
      unfold Kmalloc.active
      rw [active]
      exact here
    exact iff_of_true (Reports.counted right) fun _ => ⟨h, current, allocates.hasPlace rfl⟩

theorem KmallocInv.kfree_statistics (inv : KmallocInv s) {x : LiveBlock} (member : x ∈ s.live)
    {k : Kmalloc} (call : s.kernel.kfree (some x.allocation.addr) = .ok k)
    (right : s.StatisticsRight) : KmallocState.StatisticsRight ⟨k, s.live.erase x⟩ := by
  rcases Kmalloc.kfree_inside call with ⟨h, active, inside⟩
  obtain ⟨id, number, there⟩ := Option.bind_eq_some_iff.mp active
  rcases inv.kfree_ok member there active inside with ⟨p, j, mem', done, frees⟩
  cases done.symm.trans call
  have erased := liveSize_erase member
  unfold KmallocState.StatisticsRight at right
  rw [← erased.1, ← erased.2] at right
  exact Reports.released right

theorem KmallocInv.krealloc_request (inv : KmallocInv s) {x : LiveBlock} (member : x ∈ s.live)
    {n : Nat} (request : s.Request (.krealloc (some x.allocation.addr) size) n alignment) :
    n = size ∧ alignment = x.allocation.alignment ∧ 0 < size ∧ size ≠ x.allocation.size ∧
      x.allocation.alignment ≠ 2 ^ 31 ∧
        ∃ h, s.kernel.active = some h ∧ heapIsAddrInside x.allocation.addr h := by
  generalize named : KmallocCall.krealloc (some x.allocation.addr) size = call at request
  cases request with
  | kmalloc | kcalloc | kmallocAligned => cases named
  | kreallocNull => cases named
  | krealloc other some_ active inside different signed =>
    injection named with address sizes
    have same := inv.addr_inj member other (Option.some.inj address).symm
    subst same
    subst sizes
    exact ⟨rfl, rfl, some_, different, signed, _, active, inside⟩

theorem KmallocInv.krealloc_statistics (inv : KmallocInv s) {x : LiveBlock} (member : x ∈ s.live)
    (small : size < 2 ^ 32)
    (call : s.kernel.krealloc (some x.allocation.addr) size = .ok (result, k))
    (right : s.StatisticsRight) :
    KmallocState.StatisticsRight ⟨k, s.relent x size result⟩ ↔
      s.Finds (.krealloc (some x.allocation.addr) size) := by
  by_cases zero : size = 0
  · unfold Kmalloc.krealloc at call
    rw [if_pos zero] at call
    cases call
    refine iff_of_true right fun n alignment request => ?_
    exact absurd zero (Nat.ne_of_gt (inv.krealloc_request member request).2.2.1)
  obtain ⟨id, active⟩ := Option.ne_none_iff_exists'.mp (inv.used (List.ne_nil_of_mem member))
  rcases inv.active_heap active with ⟨h, there, current⟩
  rcases inv.krealloc_cases member (Nat.pos_of_ne_zero zero) small current there with
    ⟨out, done⟩ | ⟨inside, ⟨same, done⟩ | ⟨other, ⟨last, done⟩ | ⟨signed, ⟨null, done⟩ |
      ⟨addr, p, j, mem, q, l, mem', done, allocates, frees⟩⟩⟩⟩
  · cases done.symm.trans call
    refine iff_of_true right fun n alignment request => ?_
    obtain ⟨-, -, -, -, -, g, active', within⟩ := inv.krealloc_request member request
    cases current.symm.trans active'
    exact absurd within out
  · cases done.symm.trans call
    have kept : s.relent x size (some x.allocation.addr) = s.live := if_pos rfl
    rw [kept]
    refine iff_of_true right fun n alignment request => ?_
    exact absurd same (inv.krealloc_request member request).2.2.2.1
  · cases done.symm.trans call
    refine iff_of_true right fun n alignment request => ?_
    exact absurd last (inv.krealloc_request member request).2.2.2.2.1
  · cases done.symm.trans call
    refine iff_of_false (Reports.refused right) fun finds => ?_
    rcases finds _ _ (.krealloc member (Nat.pos_of_ne_zero zero) current inside other signed) with
      ⟨g, active', place⟩
    cases current.symm.trans active'
    rcases (inv.inside_iff member there).mp inside with ⟨rfl, -⟩
    have kept := inv.kept _ h there
    rcases inv.powers x member with ⟨e, low, power⟩
    rw [power] at null place
    exact gallocatorAllocAligned_refuses kept.layout kept.heapMeta (Nat.pos_of_ne_zero zero) low null
      place
  · cases done.symm.trans call
    rcases (inv.inside_iff member there).mp inside with ⟨rfl, -⟩
    rcases inv.powers x member with ⟨e, low, power⟩
    have moved := inv.moved member there small (Nat.min_le_right _ _) allocates frees
    have live : s.relent x size (some addr) =
        ⟨x.heap, ⟨addr, size, x.allocation.alignment⟩⟩ :: s.live.erase x := by
      unfold KmallocState.relent
      dsimp only
      rw [if_neg moved.1, active]
      rfl
    have erased := liveSize_erase member
    rw [live]
    refine iff_of_true ?_ fun n alignment request => ?_
    · unfold KmallocState.StatisticsRight at right
      rw [← erased.1, ← erased.2] at right
      have lent := @Reports.counted _ _ _ size mem right
      rw [Nat.add_left_comm] at lent
      exact Reports.released lent
    · rcases inv.krealloc_request member request with ⟨rfl, rfl, -⟩
      exact ⟨h, current, allocates.hasPlace power⟩

theorem KmallocState.finds_iff {n a : Nat}
    (only : ∀ m b, s.Request call m b ↔ 0 < n ∧ m = n ∧ b = a) :
    s.Finds call ↔ (0 < n → ∃ h, s.kernel.active = some h ∧
      h.preparedMeta.HasPlace s.kernel.mem n a) := by
  constructor
  · exact fun finds some_ => finds n a ((only n a).mpr ⟨some_, rfl, rfl⟩)
  · intro place m b request
    rcases (only m b).mp request with ⟨some_, rfl, rfl⟩
    exact place some_

theorem Kmalloc.kmallocRegisterHeap_statistics {k' : Kmalloc} {heap : Heap} {st : Int}
    (call : k.kmallocRegisterHeap heap = .ok (st, k')) : k'.statistics = k.statistics := by
  by_cases room : k.heaps.length = kmallocMaxHeaps
  · unfold Kmalloc.kmallocRegisterHeap at call
    rw [if_pos room] at call
    cases call
    rfl
  · rcases Kmalloc.kmallocRegisterHeap_ok room call with ⟨mem, rfl⟩
    rfl

theorem Kmalloc.kmallocUseHeap_statistics (id : Nat) :
    (k.kmallocUseHeap id).2.statistics = k.statistics := by
  unfold Kmalloc.kmallocUseHeap
  split_ifs <;> rfl

/-- The statistics stay right in a step exactly if the driver finds a place for what it is asked. -/
theorem KmallocStep.statistics (step : KmallocStep s call t) (inv : KmallocInv s)
    (right : s.StatisticsRight) : t.StatisticsRight ↔ s.Finds call := by
  cases step with
  | registerHeap apart call =>
    refine iff_of_true ?_ nofun
    unfold KmallocState.StatisticsRight
    rw [Kmalloc.kmallocRegisterHeap_statistics call]
    exact right
  | useHeap =>
    refine iff_of_true ?_ nofun
    unfold KmallocState.StatisticsRight
    rw [Kmalloc.kmallocUseHeap_statistics]
    exact right
  | @kmalloc size result k small call =>
    rw [(inv.kmalloc_asks call).statistics inv right]
    refine (s.finds_iff fun m b => ⟨?_, ?_⟩).symm
    · intro request
      cases request with
      | kmalloc some_ => exact ⟨some_, rfl, rfl⟩
    · rintro ⟨some_, rfl, rfl⟩
      exact .kmalloc some_
  | @kcalloc size result k small call =>
    rcases inv.kcalloc_asks call with ⟨t, asks, ending⟩
    have same : k.statistics = t.statistics := by
      rcases ending with ⟨-, rfl⟩ | ⟨addr, -, rfl⟩ <;> rfl
    unfold KmallocState.StatisticsRight
    rw [same]
    refine (asks.statistics inv right).trans (s.finds_iff fun m b => ⟨?_, ?_⟩).symm
    · intro request
      cases request with
      | kcalloc some_ => exact ⟨some_, rfl, rfl⟩
    · rintro ⟨some_, rfl, rfl⟩
      exact .kcalloc some_
  | @kmallocAligned size alignment result k small narrow call =>
    rw [(inv.kmallocAligned_asks narrow call).statistics inv right]
    refine (s.finds_iff fun m b => ⟨?_, ?_⟩).symm
    · intro request
      cases request with
      | kmallocAligned some_ => exact ⟨some_, rfl, rfl⟩
    · rintro ⟨some_, rfl, rfl⟩
      exact .kmallocAligned some_
  | @kreallocNull size result k small call =>
    rw [(inv.kreallocNull_asks call).statistics inv right]
    refine (s.finds_iff fun m b => ⟨?_, ?_⟩).symm
    · intro request
      cases request with
      | kreallocNull some_ => exact ⟨some_, rfl, rfl⟩
    · rintro ⟨some_, rfl, rfl⟩
      exact .kreallocNull some_
  | krealloc member small call => exact inv.krealloc_statistics member small call right
  | kfree member call => exact iff_of_true (inv.kfree_statistics member call right) nofun
  | write member low high => exact iff_of_true right nofun

end

end Dxgmx
