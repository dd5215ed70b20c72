import Dxgmx.Mem.Dma
import Dxgmx.Utils.BitmapLending
import Dxgmx.Utils.BitmapCompleteness

open Library

namespace Dxgmx

/-- A search for no units finds none, as long as the counter cannot wrap to 0. -/
theorem bitmapScanByte_zero (val : BitVec 8) (byte left : Nat) (search : BitmapSearch)
    (small : search.found + left < 2 ^ 32) :
    (bitmapScanByte val 0 byte left search).2 = none ∧
      (bitmapScanByte val 0 byte left search).1.found ≤ search.found + left := by
  induction left generalizing search with
  | zero => exact ⟨rfl, le_refl _⟩
  | succ left ih =>
    simp only [bitmapScanByte]
    split
    · obtain ⟨none, found⟩ := ih { search with found := 0 } (by simp only; omega)
      simp only at found
      exact ⟨none, by omega⟩
    · have found := extend_found search byte (7 - left) (by omega)
      have nonzero : (search.extend byte (7 - left)).found ≠ 0 := by omega
      rw [if_neg nonzero]
      obtain ⟨none, grown⟩ := ih (search.extend byte (7 - left)) (by omega)
      exact ⟨none, by omega⟩

theorem bitmapScan_zero (bm : Bitmap) (left bit : Nat) (search : BitmapSearch)
    (small : search.found + left * 8 < 2 ^ 32) : bitmapScan bm 0 left bit search = none := by
  induction left generalizing bit search with
  | zero => rfl
  | succ left ih =>
    obtain ⟨none, found⟩ := bitmapScanByte_zero (bm.start (bm.size - (left + 1)))
      (bm.size - (left + 1)) (8 - bit) search (by omega)
    simp only [bitmapScan]
    split
    · rename_i hit scanned
      rw [scanned] at none
      cases none
    · rename_i scanned
      rw [scanned] at found
      exact ih 0 _ (by simp only at found; omega)

theorem bitmapFirstNFreeAndMark_zero {n : BitVec 32} {bm bm' : Bitmap} {result : Int}
    (zero : n.toNat = 0) (small : bm.size * 8 < 2 ^ 32)
    (call : bitmapFirstNFreeAndMark n bm = .ok (result, bm')) :
    bm'.size = bm.size ∧ result = -12 ∧ ∀ unit, bm'.isSet unit = bm.isSet unit := by
  have none := bitmapScan_zero bm (bm.size - bm.byteCursor) bm.bitCursor.val ⟨0, 0, 0⟩
    (by simp only; omega)
  simp only [bitmapFirstNFreeAndMark, zero, none] at call
  cases call
  exact ⟨rfl, rfl, fun _ => rfl⟩

theorem bitmapInit_ok {units : BitVec 32} {memory : Bool} {bm : Bitmap}
    (call : bitmapInit units memory = .ok bm) :
    bm.size = (units.toNat + 7) / 8 ∧ ∀ unit, bm.isSet unit = false := by
  unfold bitmapInit at call
  split at call
  · cases call
  · split at call
    · cases call
      exact ⟨rfl, fun unit => by simp [Bitmap.isSet]⟩
    · cases call

section

variable {PagingStruct : Type}
  {mmMapPage : Ptr → Ptr → BitVec 16 → PagingStruct → Int × PagingStruct}

/-- The first page of a range of the heap. -/
def Heap.rangeStart (heap : Heap) (start : Int) : Ptr :=
  heap.vaddr + BitVec.ofInt 32 start * BitVec.ofNat 32 pageSize

/-- There is no bitmap, the bitmap has no range, or the pages of a range are mapped. -/
theorem dmaMapRange_outcomes {paddr : Ptr} {n : BitVec 32} {flags : BitVec 16} {memory : Bool}
    {proc proc' : DmaProc PagingStruct} {result : Except Int Ptr}
    (call : dmaMapRange mmMapPage paddr n flags memory proc = .ok (result, proc')) :
    (∃ st, proc.bitmap memory = .error st ∧ result = .error st ∧ proc' = proc) ∨
      ∃ bm start bm', proc.bitmap memory = .ok bm ∧
        bitmapFirstNFreeAndMark (dmaPages n) bm = .ok (start, bm') ∧
        ((start < 0 ∧ result = .error (-12) ∧ proc' = { proc with dmaBitmap := some bm' }) ∨
          0 ≤ start ∧ ∃ st ps, dmaMapPages mmMapPage (proc.dmaHeap.rangeStart start) paddr flags
              (dmaPages n).toNat (dmaPages n).toNat proc.pagingStruct = (st, ps) ∧
            proc' = { proc with dmaBitmap := some bm', pagingStruct := ps } ∧
            result = if st < 0 then .error st else .ok (proc.dmaHeap.rangeStart start)) := by
  obtain ⟨-, rest⟩ := assert_bind_ok.mp call
  cases made : proc.bitmap memory with
  | error st =>
    rw [made] at rest
    cases rest
    exact .inl ⟨st, rfl, rfl, rfl⟩
  | ok bm =>
    rw [made] at rest
    obtain ⟨⟨start, bm'⟩, marked, rest⟩ := Exec.bind_ok.mp rest
    refine .inr ⟨bm, start, bm', rfl, marked, ?_⟩
    dsimp only at rest
    split at rest
    · rename_i failed
      cases rest
      exact .inl ⟨failed, rfl, rfl⟩
    · rename_i success
      refine .inr ⟨by omega, _, _, rfl, ?_⟩
      split at rest
      · rename_i failed
        cases rest
        exact ⟨rfl, (if_pos failed).symm⟩
      · rename_i done
        cases rest
        exact ⟨rfl, (if_neg done).symm⟩

theorem dmaMapRange_cases {paddr : Ptr} {n : BitVec 32} {flags : BitVec 16} {memory : Bool}
    {proc proc' : DmaProc PagingStruct} {result : Except Int Ptr}
    (call : dmaMapRange mmMapPage paddr n flags memory proc = .ok (result, proc')) :
    proc'.dmaHeap = proc.dmaHeap ∧
      ((proc'.dmaBitmap = proc.dmaBitmap ∧ ∃ st, result = .error st) ∨
        ∃ bm start bm', proc.bitmap memory = .ok bm ∧
          bitmapFirstNFreeAndMark (dmaPages n) bm = .ok (start, bm') ∧
          proc'.dmaBitmap = some bm' ∧ ∀ vaddr, result = .ok vaddr →
            0 ≤ start ∧
              vaddr = proc.dmaHeap.vaddr + BitVec.ofInt 32 start * BitVec.ofNat 32 pageSize) := by
  rcases dmaMapRange_outcomes call with ⟨st, -, failed, rfl⟩ |
    ⟨bm, start, bm', made, marked, ⟨-, failed, rfl⟩ | ⟨success, st, ps, -, rfl, value⟩⟩
  · exact ⟨rfl, .inl ⟨rfl, st, failed⟩⟩
  · refine ⟨rfl, .inr ⟨bm, start, bm', made, marked, rfl, fun vaddr same => ?_⟩⟩
    cases failed.symm.trans same
  · refine ⟨rfl, .inr ⟨bm, start, bm', made, marked, rfl, fun vaddr same => ⟨success, ?_⟩⟩⟩
    rw [value] at same
    split_ifs at same
    exact (Except.ok.inj same).symm

/-- One call of `dma_map_range` with what it returned. -/
structure DmaCall where
  paddr : Ptr
  n : BitVec 32
  flags : BitVec 16
  memory : Bool
  result : Except Int Ptr

/-- The virtual pages of the mapping that a call returned. -/
def DmaCall.takes (call : DmaCall) (page : Ptr) : Prop :=
  ∃ vaddr, call.result = .ok vaddr ∧
    ∃ i < (dmaPages call.n).toNat, page = vaddr + BitVec.ofNat 32 (i * pageSize)

def DmaProc.Step (mmMapPage : Ptr → Ptr → BitVec 16 → PagingStruct → Int × PagingStruct)
    (proc : DmaProc PagingStruct) (call : DmaCall) (proc' : DmaProc PagingStruct) : Prop :=
  dmaMapRange mmMapPage call.paddr call.n call.flags call.memory proc = .ok (call.result, proc')

/-- The range that the call would take in the bitmap it works on is aligned. -/
def DmaProc.RangeAligned (proc : DmaProc PagingStruct) (call : DmaCall) : Prop :=
  ∀ bm, proc.bitmap call.memory = .ok bm → bm.RunAligned (dmaPages call.n).toNat

/-- The process has the heap it started with, and its bitmap is that of the heap. -/
def DmaProc.Sized (heap : Heap) (proc : DmaProc PagingStruct) : Prop :=
  proc.dmaHeap = heap ∧
    ∀ bm, proc.dmaBitmap = some bm → bm.size = (heap.pagespan.toNat + 7) / 8

def Heap.page (heap : Heap) (unit : Nat) : Ptr := heap.vaddr + BitVec.ofNat 32 (unit * pageSize)

theorem heap_pagespan_le (heap : Heap) : heap.pagespan.toNat ≤ 2 ^ 20 := by
  have fits := heap.fits
  unfold pageSize at fits
  omega

theorem heap_page_inj {heap : Heap} {first second : Nat} (firstBound : first < 2 ^ 20)
    (secondBound : second < 2 ^ 20) (same : heap.page first = heap.page second) :
    first = second := by
  have offsets := congrArg BitVec.toNat ((BitVec.add_right_inj heap.vaddr).mp same)
  simp only [BitVec.toNat_ofNat, pageSize] at offsets
  omega

theorem dmaProc_bitmap_sized {heap : Heap} {proc : DmaProc PagingStruct} {memory : Bool}
    {bm : Bitmap} (sized : proc.Sized heap) (made : proc.bitmap memory = .ok bm) :
    bm.size = (heap.pagespan.toNat + 7) / 8 := by
  unfold DmaProc.bitmap at made
  split at made
  · rename_i old known
    cases made
    exact sized.2 _ known
  · rw [sized.1] at made
    exact (bitmapInit_ok made).1

theorem bitmapFirstNFreeAndMark_mono {n : BitVec 32} {bm bm' : Bitmap} {result : Int}
    (small : bm.size * 8 < 2 ^ 32) (call : bitmapFirstNFreeAndMark n bm = .ok (result, bm')) :
    bm'.size = bm.size ∧ ∀ unit, bm.isSet unit = true → bm'.isSet unit = true := by
  by_cases zero : n.toNat = 0
  · obtain ⟨size, -, same⟩ := bitmapFirstNFreeAndMark_zero zero small call
    exact ⟨size, fun unit set => by rw [same, set]⟩
  · have positive : 1 ≤ n.toNat := by omega
    exact ⟨(bitmapFirstNFreeAndMark_cases positive call).1,
      fun unit set => bitmapFirstNFreeAndMark_keeps positive call set⟩

theorem step_sized {heap : Heap} {proc proc' : DmaProc PagingStruct} {call : DmaCall}
    (step : DmaProc.Step mmMapPage proc call proc') (sized : proc.Sized heap) :
    proc'.Sized heap := by
  obtain ⟨same, ⟨kept, -⟩ | ⟨bm, start, bm', made, marked, after, -⟩⟩ := dmaMapRange_cases step
  · refine ⟨same.trans sized.1, ?_⟩
    rw [kept]
    exact sized.2
  · have span := heap_pagespan_le heap
    have size := dmaProc_bitmap_sized sized made
    refine ⟨same.trans sized.1, fun other known => ?_⟩
    rw [after] at known
    cases known
    rw [(bitmapFirstNFreeAndMark_mono (by omega) marked).1, size]

/-- A page that a call takes is the page of a unit of the range that the bitmap gave it. -/
theorem takes_unit {heap : Heap} {proc proc' : DmaProc PagingStruct} {call : DmaCall} {page : Ptr}
    (step : DmaProc.Step mmMapPage proc call proc') (sized : proc.Sized heap)
    (takes : call.takes page) :
    ∃ bm start bm', ∃ unit < bm.size * 8, proc.bitmap call.memory = .ok bm ∧
      bitmapFirstNFreeAndMark (dmaPages call.n) bm = .ok (start, bm') ∧
      proc'.dmaBitmap = some bm' ∧ page = heap.page unit ∧ 1 ≤ (dmaPages call.n).toNat ∧
      0 ≤ start ∧ start ≤ unit ∧ unit < start + (dmaPages call.n).toNat := by
  obtain ⟨vaddr, mapped, i, within, place⟩ := takes
  obtain ⟨-, ⟨-, st, failed⟩ | ⟨bm, start, bm', made, marked, after, value⟩⟩ :=
    dmaMapRange_cases step
  · rw [mapped] at failed
    cases failed
  · obtain ⟨success, base⟩ := value vaddr mapped
    obtain ⟨first, rfl, run, -⟩ := bitmapFirstNFreeAndMark_success (by omega) marked success
    have inside := run.1.2.1
    refine ⟨bm, first, bm', first + i, by omega, made, marked, after, ?_, by omega, success,
      by omega, by omega⟩
    have offset : BitVec.ofInt 32 first * BitVec.ofNat 32 pageSize =
        BitVec.ofNat 32 (first * pageSize) := by
      rw [BitVec.ofInt_natCast, ← BitVec.ofNat_mul]
    rw [place, base, sized.1, offset, Heap.page, Nat.add_mul, BitVec.ofNat_add, BitVec.add_assoc]

/-- No unit of the page is set. -/
def DmaProc.available (heap : Heap) (proc : DmaProc PagingStruct) (page : Ptr) : Prop :=
  ∀ bm, proc.dmaBitmap = some bm →
    ∀ unit < bm.size * 8, page = heap.page unit → bm.isSet unit = false

theorem dma_lends_exclusively {heap : Heap} {calls : List DmaCall}
    {start proc : DmaProc PagingStruct} (fresh : start.dmaHeap = heap ∧ start.dmaBitmap = none)
    (run : Run (fun proc call proc' => DmaProc.Step mmMapPage proc call proc' ∧
      proc.RangeAligned call) start calls proc) :
    Exclusive DmaCall.takes (fun _ _ => False) calls := by
  have span := heap_pagespan_le heap
  have sizedRun := run.strengthen (fun proc => proc.Sized heap)
    (fun _ _ _ step sized => step_sized step.1 sized) ⟨fresh.1, by simp [fresh.2]⟩
  refine sizedRun.exclusive (DmaProc.available heap) ?_ ?_ ?_
  · rintro proc call proc' page ⟨⟨step, -⟩, sized, -⟩ takes bm known unit inside place
    obtain ⟨bm', first, after, unit', inside', made, marked, -, place', positive, success, low,
      high⟩ := takes_unit step sized takes
    have same : bm' = bm := by
      simp only [DmaProc.bitmap, known] at made
      cases made
      rfl
    subst same
    have size := dmaProc_bitmap_sized sized made
    have unique : unit = unit' := heap_page_inj (by omega) (by omega) (place.symm.trans place')
    rw [unique]
    exact bitmapFirstNFreeAndMark_clear positive marked success low high
  · rintro proc call proc' page ⟨⟨step, aligned⟩, sized, -⟩ takes available
    obtain ⟨bm, first, bm', unit, inside, made, marked, after, place, positive, success, low,
      high⟩ := takes_unit step sized takes
    have size := (bitmapFirstNFreeAndMark_cases positive marked).1
    have clear := available bm' after unit (by omega) place
    have set := (bitmapFirstNFreeAndMark_sets_iff positive marked success).mpr
      (aligned bm made) unit low high
    rw [set] at clear
    cases clear
  · rintro proc call proc' page ⟨⟨step, -⟩, sized, -⟩ - used available
    refine used fun bm known unit inside place => ?_
    obtain ⟨-, ⟨kept, -⟩ | ⟨bm', first, after, made, marked, now, -⟩⟩ := dmaMapRange_cases step
    · exact available bm (kept.trans known) unit inside place
    · have same : bm' = bm := by
        simp only [DmaProc.bitmap, known] at made
        cases made
        rfl
      subst same
      have size := sized.2 _ known
      obtain ⟨sameSize, kept⟩ := bitmapFirstNFreeAndMark_mono (by omega) marked
      have clear := available after now unit (by omega) place
      by_contra set
      simp only [Bool.not_eq_false] at set
      rw [kept unit set] at clear
      cases clear

/-- While every search finds an aligned run, the ranges of one bitmap, and so the mappings of one
    process, do not overlap; and a call sets all of the range it returns exactly in that case. -/
theorem dma_ranges_disjoint
    (mmMapPage : Ptr → Ptr → BitVec 16 → PagingStruct → Int × PagingStruct) :
    (∀ units calls bm, Bitmap.Reached units Bitmap.RunAligned calls bm →
      calls.Pairwise fun first second => ∀ unit, first.takes unit → ¬ second.takes unit) ∧
    (∀ (start proc : DmaProc PagingStruct) calls, start.dmaBitmap = none →
      Run (fun proc call proc' => DmaProc.Step mmMapPage proc call proc' ∧ proc.RangeAligned call)
        start calls proc →
      calls.Pairwise fun first second => ∀ page, first.takes page → ¬ second.takes page) ∧
    (∀ n bm bm' result, 1 ≤ n.toNat → bitmapFirstNFreeAndMark n bm = .ok (result, bm') →
      0 ≤ result →
      ((∀ unit : Nat, result ≤ unit → unit < result + n.toNat → bm'.isSet unit = true) ↔
        bm.RunAligned n.toNat)) := by
  refine ⟨?_, ?_, ?_⟩
  · intro units calls bm reached
    exact (bitmap_lends_exclusively reached).pairwise
  · intro start proc calls fresh run
    exact (dma_lends_exclusively ⟨rfl, fresh⟩ run).pairwise
  · intro n bm bm' result positive call success
    exact bitmapFirstNFreeAndMark_sets_iff positive call success

end

theorem dma_ranges_disjoint_aligned :
    [⟨8, 0⟩, ⟨4, 8⟩, ⟨4, 12⟩].Pairwise fun first second : BitmapCall =>
      ∀ unit, first.takes unit → ¬ second.takes unit := by
  obtain ⟨bm, reached⟩ := Bitmap.reached_of_replay 24 Bitmap.RunAligned
    [⟨8, 0⟩, ⟨4, 8⟩, ⟨4, 12⟩] (by decide)
  exact (dma_ranges_disjoint fun _ _ _ (ps : Unit) => (0, ps)).1 _ _ _ reached

/-- After requests of 4, 8 and 8 the cursor is back at the start. Units 8 to 11 belong to the second
    range but were never marked, so a request for 4 returns them again. -/
theorem dma_ranges_overlap :
    ¬ ∀ units calls bm, Bitmap.Reached units (fun _ _ => True) calls bm →
      calls.Pairwise fun first second => ∀ unit, first.takes unit → ¬ second.takes unit := by
  intro claim
  obtain ⟨bm, reached⟩ := Bitmap.reached_of_replay 24 (fun _ _ => True)
    [⟨4, 0⟩, ⟨8, 4⟩, ⟨8, 16⟩, ⟨4, 8⟩] (by decide)
  have disjoint := claim _ _ _ reached
  simp only [List.pairwise_cons] at disjoint
  have second := disjoint.2.1 ⟨4, 8⟩ (by simp) 8
  exact second ⟨by decide, by decide, by decide⟩ ⟨by decide, by decide, by decide⟩

section

variable {PagingStruct : Type} {mmMapPage : Ptr → Ptr → BitVec 16 → PagingStruct → Int × PagingStruct}

/-- `mm_map_page` with a record of the pages that it is called for. -/
def recorded (mmMapPage : Ptr → Ptr → BitVec 16 → PagingStruct → Int × PagingStruct)
    (vaddr paddr : Ptr) (flags : BitVec 16) (s : PagingStruct × List Ptr) :
    Int × PagingStruct × List Ptr :=
  let (st, ps) := mmMapPage vaddr paddr flags s.1
  (st, ps, vaddr :: s.2)

/-- The loop calls `mm_map_page` for no other pages than those of the range. -/
theorem dmaMapPages_recorded {vaddr paddr : Ptr} {flags : BitVec 16} {pages left : Nat}
    (few : left ≤ pages) {s : PagingStruct × List Ptr} {page : Ptr}
    (member : page ∈ (dmaMapPages (recorded mmMapPage) vaddr paddr flags pages left s).2.2) :
    page ∈ s.2 ∨ ∃ i < pages, page = vaddr + BitVec.ofNat 32 (i * pageSize) := by
  induction left generalizing s with
  | zero => exact .inl member
  | succ left ih =>
    unfold dmaMapPages at member
    dsimp only at member
    have kept : page ∈ (recorded mmMapPage (vaddr + BitVec.ofNat 32 ((pages - (left + 1)) * pageSize))
          (paddr + BitVec.ofNat 32 ((pages - (left + 1)) * pageSize)) flags s).2.2 →
        page ∈ s.2 ∨ ∃ i < pages, page = vaddr + BitVec.ofNat 32 (i * pageSize) := by
      intro member
      rcases List.mem_cons.mp member with here | before
      · exact .inr ⟨pages - (left + 1), by omega, here⟩
      · exact .inl before
    split_ifs at member
    · exact kept member
    · rcases ih (by omega) member with before | inside
      · exact kept before
      · exact .inr inside

/-- The pages that a call maps are those of a range of the bitmap. -/
theorem dmaMapRange_recorded {paddr : Ptr} {n : BitVec 32} {flags : BitVec 16} {memory : Bool}
    {proc proc' : DmaProc (PagingStruct × List Ptr)} {result : Except Int Ptr}
    (call : dmaMapRange (recorded mmMapPage) paddr n flags memory proc = .ok (result, proc'))
    {page : Ptr} (member : page ∈ proc'.pagingStruct.2) :
    page ∈ proc.pagingStruct.2 ∨ ∃ bm start bm', proc.bitmap memory = .ok bm ∧
      bitmapFirstNFreeAndMark (dmaPages n) bm = .ok (start, bm') ∧ 0 ≤ start ∧
        ∃ i < (dmaPages n).toNat,
          page = proc.dmaHeap.rangeStart start + BitVec.ofNat 32 (i * pageSize) := by
  rcases dmaMapRange_outcomes call with ⟨st, -, -, rfl⟩ |
    ⟨bm, start, bm', made, marked, ⟨-, -, rfl⟩ | ⟨success, st, ps, mapped, rfl, -⟩⟩
  · exact .inl member
  · exact .inl member
  · have inside := @dmaMapPages_recorded _ mmMapPage (proc.dmaHeap.rangeStart start) paddr flags
      (dmaPages n).toNat (dmaPages n).toNat (Nat.le_refl _) proc.pagingStruct page
    rw [mapped] at inside
    rcases inside member with before | here
    · exact .inl before
    · exact .inr ⟨bm, start, bm', made, marked, success, here⟩

/-- The range that the call would take in the bitmap it works on is within the heap. -/
def DmaProc.RangeInside {PagingStruct : Type} (proc : DmaProc PagingStruct) (call : DmaCall) : Prop :=
  ∀ bm, proc.bitmap call.memory = .ok bm → 1 ≤ (dmaPages call.n).toNat →
    bm.Inside proc.dmaHeap.pagespan.toNat (dmaPages call.n).toNat

theorem rangeStart_page {heap : Heap} {start i : Nat} :
    heap.rangeStart start + BitVec.ofNat 32 (i * pageSize) = heap.page (start + i) := by
  have offset : BitVec.ofInt 32 start * BitVec.ofNat 32 pageSize =
      BitVec.ofNat 32 (start * pageSize) := by
    rw [BitVec.ofInt_natCast, ← BitVec.ofNat_mul]
  rw [Heap.rangeStart, offset, Heap.page, Nat.add_mul, BitVec.ofNat_add, BitVec.add_assoc]

theorem dma_pages_inside {heap : Heap} {calls : List DmaCall}
    {start proc : DmaProc (PagingStruct × List Ptr)} (sized : start.Sized heap)
    (none_ : start.pagingStruct.2 = [])
    (run : Run (fun proc call proc' => DmaProc.Step (recorded mmMapPage) proc call proc' ∧
      proc.RangeInside call) start calls proc) :
    ∀ page ∈ proc.pagingStruct.2, ∃ unit < heap.pagespan.toNat, page = heap.page unit := by
  refine (run.invariant (fun proc => proc.Sized heap ∧
    ∀ page ∈ proc.pagingStruct.2, ∃ unit < heap.pagespan.toNat, page = heap.page unit) ?_
    ⟨sized, by rw [none_]; nofun⟩).2
  rintro proc call proc' ⟨step, inside⟩ ⟨sized, mapped⟩
  refine ⟨step_sized step sized, fun page member => ?_⟩
  rcases dmaMapRange_recorded step member with before |
    ⟨bm, first, bm', made, marked, success, i, few, rfl⟩
  · exact mapped page before
  · have positive : 1 ≤ (dmaPages call.n).toNat := by omega
    rcases (bitmap_inside_iff positive).mpr (inside bm made positive) with ⟨result, after, again, ends⟩
    cases marked.symm.trans again
    have bound := ends success
    rw [sized.1] at bound ⊢
    lift first to Nat using success
    refine ⟨first + i, by omega, rangeStart_page⟩

end

/-- While the first run of every request can be marked and ends within the units, every range that is
    returned does, the next call returns one exactly if that holds again, and the pages that are mapped
    for a process are pages of its heap. -/
theorem dma_ranges_inside {PagingStruct : Type}
    (mmMapPage : Ptr → Ptr → BitVec 16 → PagingStruct → Int × PagingStruct) :
    (∀ (units : BitVec 32) calls bm, Bitmap.Reached units (Bitmap.Inside units.toNat) calls bm →
      (∀ call ∈ calls, 0 ≤ call.result → call.result + call.n.toNat ≤ units.toNat) ∧
      ∀ n : BitVec 32, 1 ≤ n.toNat → ((∃ result bm', bitmapFirstNFreeAndMark n bm = .ok (result, bm') ∧
        (0 ≤ result → result + n.toNat ≤ units.toNat)) ↔ bm.Inside units.toNat n.toNat)) ∧
    ∀ (heap : Heap) (start proc : DmaProc (PagingStruct × List Ptr)) calls,
      start.dmaHeap = heap → start.dmaBitmap = none → start.pagingStruct.2 = [] →
      Run (fun proc call proc' => DmaProc.Step (recorded mmMapPage) proc call proc' ∧
        proc.RangeInside call) start calls proc →
      ∀ page ∈ proc.pagingStruct.2, ∃ unit < heap.pagespan.toNat, page = heap.page unit := by
  refine ⟨fun units calls bm reached => ⟨reached_inside reached, fun n positive =>
    bitmap_inside_iff positive⟩, fun heap start proc calls same fresh none_ run => ?_⟩
  exact dma_pages_inside ⟨same, by simp [fresh]⟩ none_ run

def heapOf24 : Heap := ⟨0xf0000000, 24, by decide⟩

/-- Two requests that fill 24 units, and a range of two pages. -/
theorem dma_ranges_inside_pages :
    (∀ call ∈ [⟨8, 0⟩, (⟨16, 8⟩ : BitmapCall)], 0 ≤ call.result → call.result + call.n.toNat ≤ 24) ∧
      ∃ proc : DmaProc (Unit × List Ptr), proc.pagingStruct.2 = [0xf0001000, 0xf0000000] ∧
        ∀ page ∈ proc.pagingStruct.2, ∃ unit < 24, page = heapOf24.page unit := by
  rcases Bitmap.reached_of_replay 24 (Bitmap.Inside (24 : BitVec 32).toNat) [⟨8, 0⟩, ⟨16, 8⟩]
    (by decide) with ⟨bm, reached⟩
  have ends := ((dma_ranges_inside fun _ _ _ (ps : Unit) => (0, ps)).1 24 _ bm reached).1
  have units : ((24 : BitVec 32).toNat : Int) = 24 := by decide
  rw [units] at ends
  refine ⟨ends, ?_⟩
  let start : DmaProc (Unit × List Ptr) := ⟨heapOf24, none, (), []⟩
  let call : DmaCall := ⟨0x5000, 0x2000, 0, true, .ok 0xf0000000⟩
  have inside : start.RangeInside call := by
    intro bm made _
    cases made
    decide
  have replay : (dmaMapRange (recorded fun _ _ _ (ps : Unit) => (0, ps)) call.paddr call.n call.flags
      call.memory start).map (fun r => (r.1.toOption, r.2.pagingStruct.2)) =
        .ok (some 0xf0000000, [0xf0001000, 0xf0000000]) := by decide
  rcases made : dmaMapRange (recorded fun _ _ _ (ps : Unit) => (0, ps)) call.paddr call.n call.flags
    call.memory start with stop | ⟨_ | vaddr, proc⟩
  · rw [made] at replay
    cases replay
  · rw [made] at replay
    cases replay
  · rw [made] at replay
    have both := Prod.mk.inj (Except.ok.inj replay)
    cases both.1
    exact ⟨proc, both.2, (dma_ranges_inside fun _ _ _ (ps : Unit) => (0, ps)).2 heapOf24 start proc [call]
      rfl rfl rfl (.single ⟨made, inside⟩)⟩

/-- A range that ends behind the units, and a range of a bitmap of whole bytes that is not marked. -/
theorem bitmap_ranges_outside : (∃ bm, Bitmap.Reached 4 (fun _ _ => True) [⟨5, 0⟩] bm) ∧
    ∃ bm, Bitmap.Reached 24 (fun _ _ => True) [⟨4, 0⟩] bm ∧
      bitmapFirstNFreeAndMark 16 bm = .error .panic := by
  refine ⟨Bitmap.reached_of_replay 4 _ _ (by decide), ?_⟩
  refine ⟨_, ⟨_, rfl, .single ⟨rfl, by decide, trivial⟩⟩, rfl⟩

end Dxgmx
