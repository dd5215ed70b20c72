import Dxgmx.Mem.DmaLending
import Dxgmx.Mem.PagingTables

open Library

namespace Dxgmx

/-- A paging struct, its tables and how many pages have been mapped so far. -/
structure DmaPaging extends PagingState where
  mapped : Nat

/-- `mm_map_page` for the pages of a range, which are aligned where the heap is. `mems` is what
    `kmalloc_aligned` answers to the mapping with each number. -/
def dmaMapPage (kimg : KernelImage) (mems : Nat → MapMem) (vaddr paddr : Ptr) (flags : BitVec 16)
    (s : DmaPaging) : Int × DmaPaging :=
  let (st, ps, tables) := mmMapPageArch kimg (mems s.mapped) vaddr paddr flags s.ps s.tables
  (st, ⟨⟨ps, tables⟩, s.mapped + 1⟩)

theorem pageAligned_add {addr : Ptr} (aligned : PageAligned addr) (i : Nat) :
    PageAligned (addr + BitVec.ofNat 32 (i * pageSize)) := by
  unfold PageAligned at *
  rw [BitVec.toNat_add, BitVec.toNat_ofNat]
  unfold pageSize at *
  omega

/-- The assertions of `mm_map_page` hold for the pages of an aligned range. -/
theorem dmaMapPage_mmMapPage {kimg : KernelImage} {mems : Nat → MapMem} {vaddr paddr : Ptr}
    {flags : BitVec 16} {s : DmaPaging} (aligned : vaddr.toNat % pageSize = 0)
    (paddrAligned : paddr.toNat % pageSize = 0) (i : Nat) :
    (mmMapPage kimg (mems s.mapped) (vaddr + BitVec.ofNat 32 (i * pageSize))
        (paddr + BitVec.ofNat 32 (i * pageSize)) flags s.ps s.tables).map
          (fun r => (r.1, (⟨⟨r.2.1, r.2.2⟩, s.mapped + 1⟩ : DmaPaging))) =
      .ok (dmaMapPage kimg mems (vaddr + BitVec.ofNat 32 (i * pageSize))
        (paddr + BitVec.ofNat 32 (i * pageSize)) flags s) := by
  have first := pageAligned_add aligned i
  have second := pageAligned_add paddrAligned i
  unfold PageAligned at first second
  unfold mmMapPage assert
  rw [if_pos first, if_pos second]
  rfl

/-- The blocks that the mappings from `first` on get are fresh, and no two are the same. -/
structure Supply (kimg : KernelImage) (tables : Tables) (mems : Nat → MapMem) (first : Nat) : Prop where
  mappable : ∀ n b, first ≤ n → (mems n).pd = some b ∨ (mems n).pt = some b →
    Mappable kimg b ∧ b ∉ tables.blocks
  distinct : ∀ n b, first ≤ n → (mems n).pd = some b → (mems n).pt ≠ some b
  apart : ∀ n m b, first ≤ n → n < m → (mems n).pd = some b ∨ (mems n).pt = some b →
    ¬((mems m).pd = some b ∨ (mems m).pt = some b)

section

variable {kimg : KernelImage} {ps ps' : PagingStruct} {tables tables' : Tables} {mems : Nat → MapMem}
  {first : Nat}

theorem Supply.fresh (supply : Supply kimg tables mems first) : (mems first).Fresh kimg tables :=
  ⟨fun b here => supply.mappable first b (Nat.le_refl _) (.inl here),
    fun b here => supply.mappable first b (Nat.le_refl _) (.inr here),
    fun b here => supply.distinct first b (Nat.le_refl _) here⟩

theorem Supply.next (supply : Supply kimg tables mems first) (walk : WalkInv kimg ps tables)
    {vaddr paddr : Ptr} {flags : BitVec 16} {st : Int}
    (call : mmMapPageArch kimg (mems first) vaddr paddr flags ps tables = (st, ps', tables')) :
    Supply kimg tables' mems (first + 1) := by
  obtain ⟨pds, pts, -, new, took⟩ := mmMapPageArch_tables walk supply.fresh call
  refine ⟨fun n b later here => ?_, fun n b later => supply.distinct n b (by omega),
    fun n m b later => supply.apart n m b (by omega)⟩
  obtain ⟨mappable, unused⟩ := supply.mappable n b (by omega) here
  refine ⟨mappable, ?_⟩
  rw [took.blocks, List.mem_append, not_or]
  refine ⟨fun member => ?_, unused⟩
  refine supply.apart first n b (Nat.le_refl _) (by omega) ?_ here
  rcases (took.reached b).mp member with ⟨i, none_, there⟩ | ⟨i, j, none_, there⟩
  · rw [pds, none_] at there
    split_ifs at there
    exact .inl there
  · rw [pts, none_] at there
    split_ifs at there
    exact .inr there

/-- There is memory for the tables of one page. -/
theorem MapMem.Fresh.supply {mem : MapMem} (fresh : mem.Fresh kimg tables) :
    Supply kimg tables (fun n => if n = 0 then mem else ⟨none, none⟩) 0 := by
  refine ⟨fun n b _ here => ?_, fun n b _ here there => ?_, fun n m b _ before _ there => ?_⟩
  · split at here
    · exact here.elim (fresh.pdMappable b) (fresh.ptMappable b)
    · rcases here with here | here <;> cases here
  · split at here
    · rename_i zero
      rw [if_pos zero] at there
      exact fresh.distinct b here there
    · cases here
  · rw [if_neg (by omega)] at there
    rcases there with there | there <;> cases there

/-- The tables of a page are there, or an earlier page has them made, or there is memory for them. -/
def PageBacked (kimg : KernelImage) (s : PagingState) (mems : Nat → MapMem) (first : Nat)
    (page : Nat → Ptr) (i : Nat) : Prop :=
  ((pdAt kimg s.ps (pdpteIdx (page i))).isSome ∨
      (∃ j < i, pdpteIdx (page j) = pdpteIdx (page i)) ∨ (mems (first + i)).pd.isSome) ∧
    ((ptAt kimg s.ps s.tables (pdpteIdx (page i)) (pdeIdx (page i))).isSome ∨
      (∃ j < i, pdpteIdx (page j) = pdpteIdx (page i) ∧ pdeIdx (page j) = pdeIdx (page i)) ∨
      (mems (first + i)).pt.isSome)

/-- The tables once the first `i` pages are mapped. -/
structure MappedUpTo (kimg : KernelImage) (s t : PagingState) (page : Nat → Ptr) (i : Nat) : Prop where
  walk : WalkInv kimg t.ps t.tables
  pds : ∀ x, (pdAt kimg t.ps x).isSome ↔ (pdAt kimg s.ps x).isSome ∨ ∃ j < i, pdpteIdx (page j) = x
  pts : ∀ x y, (ptAt kimg t.ps t.tables x y).isSome ↔ (ptAt kimg s.ps s.tables x y).isSome ∨
    ∃ j < i, pdpteIdx (page j) = x ∧ pdeIdx (page j) = y

theorem MappedUpTo.backed_iff {s t : PagingState} {page : Nat → Ptr} {i : Nat} {mem : MapMem}
    (upTo : MappedUpTo kimg s t page i) (fresh : mem.Fresh kimg t.tables)
    (same : mem = mems (first + i)) {paddr : Ptr} {flags : BitVec 16} {st : Int}
    (call : mmMapPageArch kimg mem (page i) paddr flags t.ps t.tables = (st, ps', tables')) :
    st = 0 ↔ PageBacked kimg s mems first page i := by
  rw [mmMapPageArch_done_iff upTo.walk fresh call, upTo.pds, upTo.pts, same, or_assoc, or_assoc]
  exact Iff.rfl

theorem MappedUpTo.next {s t : PagingState} {page : Nat → Ptr} {i : Nat} {mem : MapMem}
    (upTo : MappedUpTo kimg s t page i) (fresh : mem.Fresh kimg t.tables) {paddr : Ptr}
    {flags : BitVec 16}
    (call : mmMapPageArch kimg mem (page i) paddr flags t.ps t.tables = (0, ps', tables')) :
    MappedUpTo kimg s ⟨ps', tables'⟩ page (i + 1) := by
  obtain ⟨pds, pts⟩ := mmMapPageArch_reaches upTo.walk fresh call
  refine ⟨(mmMapPageArch_entries upTo.walk fresh call).1, fun x => ?_, fun x y => ?_⟩
  · rw [pds, upTo.pds, or_assoc, Nat.exists_lt_succ_right]
    simp only [eq_comm]
  · rw [pts, upTo.pts, or_assoc, Nat.exists_lt_succ_right]
    simp only [eq_comm]

theorem dmaMapPages_step {t : DmaPaging} {vaddr paddr : Ptr} {flags : BitVec 16} {pages left : Nat}
    {st : Int} (call : mmMapPageArch kimg (mems t.mapped)
      (vaddr + BitVec.ofNat 32 ((pages - (left + 1)) * pageSize))
      (paddr + BitVec.ofNat 32 ((pages - (left + 1)) * pageSize)) flags t.ps t.tables =
        (st, ps', tables')) :
    dmaMapPages (dmaMapPage kimg mems) vaddr paddr flags pages (left + 1) t =
      if st < 0 then (st, ⟨⟨ps', tables'⟩, t.mapped + 1⟩)
      else dmaMapPages (dmaMapPage kimg mems) vaddr paddr flags pages left
        ⟨⟨ps', tables'⟩, t.mapped + 1⟩ := by
  rw [dmaMapPages]
  unfold dmaMapPage
  rw [call]

/-- The loop fails if a page has no tables and there is no memory for them. -/
theorem dmaMapPages_fails_iff {s : PagingState} {t : DmaPaging} {vaddr paddr : Ptr}
    {flags : BitVec 16} {pages left : Nat} (few : left ≤ pages)
    (upTo : MappedUpTo kimg s t.toPagingState (fun i => vaddr + BitVec.ofNat 32 (i * pageSize))
      (pages - left))
    (count : t.mapped = first + (pages - left)) (supply : Supply kimg t.tables mems t.mapped) :
    (dmaMapPages (dmaMapPage kimg mems) vaddr paddr flags pages left t).1 < 0 ↔
      ∃ i < pages, pages - left ≤ i ∧
        ¬PageBacked kimg s mems first (fun i => vaddr + BitVec.ofNat 32 (i * pageSize)) i := by
  induction left generalizing t with
  | zero =>
    constructor
    · exact fun failed => absurd failed (by simp [dmaMapPages])
    · rintro ⟨i, inside, behind, -⟩
      omega
  | succ left ih =>
    have next : pages - left = pages - (left + 1) + 1 := by omega
    rw [next] at ih
    rcases call : mmMapPageArch kimg (mems t.mapped)
      (vaddr + BitVec.ofNat 32 ((pages - (left + 1)) * pageSize))
      (paddr + BitVec.ofNat 32 ((pages - (left + 1)) * pageSize)) flags t.ps t.tables with
      ⟨st, ps', tables'⟩
    rw [dmaMapPages_step call]
    generalize here : pages - (left + 1) = i at upTo count ih call ⊢
    have inside : i < pages := by omega
    have backed := upTo.backed_iff supply.fresh (congrArg mems count) call
    rcases (mmMapPageArch_entries upTo.walk supply.fresh call).2 with ⟨rfl, -⟩ | ⟨rfl, -⟩
    · rw [if_pos (by decide)]
      exact iff_of_true (show (-12 : Int) < 0 by decide)
        ⟨i, inside, Nat.le_refl _, fun there => absurd (backed.mpr there) (by decide)⟩
    · rw [if_neg (by decide), ih (by omega) (upTo.next supply.fresh call) (by dsimp only; omega)
        (supply.next upTo.walk call)]
      constructor
      · rintro ⟨m, bound, behind, unbacked⟩
        exact ⟨m, bound, by omega, unbacked⟩
      · rintro ⟨m, bound, behind, unbacked⟩
        rcases behind.lt_or_eq with later | rfl
        · exact ⟨m, bound, later, unbacked⟩
        · exact absurd (backed.mp rfl) unbacked

end

/-- What the bitmap of a process says of a unit. A process without a bitmap has no units marked. -/
def DmaProc.marked {PagingStruct : Type} (proc : DmaProc PagingStruct) (unit : Nat) : Bool :=
  match proc.dmaBitmap with
  | none => false
  | some bm => bm.isSet unit

theorem dmaProc_bitmap_marked {PagingStruct : Type} {proc : DmaProc PagingStruct} {memory : Bool}
    {bm : Bitmap} (made : proc.bitmap memory = .ok bm) (unit : Nat) :
    bm.isSet unit = proc.marked unit := by
  unfold DmaProc.marked
  unfold DmaProc.bitmap at made
  split at made
  · rename_i known
    cases made
    rw [known]
  · rename_i none_
    rw [none_, (bitmapInit_ok made).2]

/-- No unit is marked by the call and no address of the heap is translated differently. -/
def Unchanged (kimg : KernelImage) (proc proc' : DmaProc DmaPaging) : Prop :=
  (∀ unit, proc'.marked unit = proc.marked unit) ∧
    ∀ x : Ptr, proc.dmaHeap.vaddr.toNat ≤ x.toNat →
      x.toNat < proc.dmaHeap.vaddr.toNat + proc.dmaHeap.pagespan.toNat * pageSize →
      proc'.pagingStruct.va2pa kimg x = proc.pagingStruct.va2pa kimg x

section

variable {kimg : KernelImage} {mems : Nat → MapMem} {proc : DmaProc DmaPaging}
  {paddr : Ptr} {n : BitVec 32} {flags : BitVec 16} {memory : Bool}

/-- Every page of the range that the bitmap finds is backed. -/
def RangeBacked (kimg : KernelImage) (mems : Nat → MapMem) (n : BitVec 32) (memory : Bool)
    (proc : DmaProc DmaPaging) : Prop :=
  ∀ bm start, proc.bitmap memory = .ok bm → 1 ≤ (dmaPages n).toNat →
    bm.FirstFreeRun (dmaPages n).toNat start → bm.Markable (dmaPages n).toNat start →
    ∀ i < (dmaPages n).toNat, PageBacked kimg proc.pagingStruct.toPagingState mems
      proc.pagingStruct.mapped (fun i => proc.dmaHeap.page (start + i)) i

/-- The pages of a range are mapped if and only if all of them are backed. -/
theorem dmaMapPages_range_fails_iff {heap : Heap} {t : DmaPaging} {start pages : Nat}
    (walk : WalkInv kimg t.ps t.tables) (supply : Supply kimg t.tables mems t.mapped) :
    (dmaMapPages (dmaMapPage kimg mems) (heap.rangeStart start) paddr flags pages pages t).1 < 0 ↔
      ∃ i < pages, ¬PageBacked kimg t.toPagingState mems t.mapped
        (fun i => heap.page (start + i)) i := by
  have none_ : MappedUpTo kimg t.toPagingState t.toPagingState
      (fun i => heap.rangeStart start + BitVec.ofNat 32 (i * pageSize)) (pages - pages) := by
    rw [Nat.sub_self]
    exact ⟨walk, fun x => by simp, fun x y => by simp⟩
  have fails := @dmaMapPages_fails_iff kimg mems t.mapped t.toPagingState t
    (heap.rangeStart start) paddr flags pages pages (Nat.le_refl _) none_ (by omega) supply
  simp only [rangeStart_page, Nat.sub_self, Nat.zero_le, true_and] at fails
  exact fails

theorem dmaMapRange_maps {PagingStruct : Type}
    {mmMapPage : Ptr → Ptr → BitVec 16 → PagingStruct → Int × PagingStruct}
    {proc : DmaProc PagingStruct} {bm bm' : Bitmap} {start : Int}
    (aligned : paddr.toNat % pageSize = 0) (made : proc.bitmap memory = .ok bm)
    (marked : bitmapFirstNFreeAndMark (dmaPages n) bm = .ok (start, bm')) (success : 0 ≤ start)
    {st : Int} {ps : PagingStruct}
    (mapped : dmaMapPages mmMapPage (proc.dmaHeap.rangeStart start) paddr flags (dmaPages n).toNat
      (dmaPages n).toNat proc.pagingStruct = (st, ps)) :
    dmaMapRange mmMapPage paddr n flags memory proc =
      .ok (if st < 0 then .error st else .ok (proc.dmaHeap.rangeStart start),
        { proc with dmaBitmap := some bm', pagingStruct := ps }) := by
  unfold Heap.rangeStart at mapped ⊢
  unfold dmaMapRange assert
  rw [if_pos aligned, made]
  change bitmapFirstNFreeAndMark (dmaPages n) bm >>= _ = _
  rw [marked]
  change (if start < 0 then _ else _) = _
  rw [if_neg (by omega), mapped]
  dsimp only
  split_ifs <;> rfl

theorem dmaHeap_start_low {bm : Bitmap} {start : Nat} (sized : proc.Sized proc.dmaHeap)
    (made : proc.bitmap memory = .ok bm) (positive : 1 ≤ (dmaPages n).toNat)
    (run : bm.FirstFreeRun (dmaPages n).toNat start) : start < 2 ^ 31 := by
  have span := heap_pagespan_le proc.dmaHeap
  have size := dmaProc_bitmap_sized sized made
  have inside := run.1.2.1
  omega

theorem dmaHeap_failed_clear {bm bm' : Bitmap} {start : Int} (sized : proc.Sized proc.dmaHeap)
    (made : proc.bitmap memory = .ok bm)
    (marked : bitmapFirstNFreeAndMark (dmaPages n) bm = .ok (start, bm')) (failed : start < 0)
    (unit : Nat) : bm'.isSet unit = bm.isSet unit := by
  have span := heap_pagespan_le proc.dmaHeap
  have size := dmaProc_bitmap_sized sized made
  by_cases zero : (dmaPages n).toNat = 0
  · exact (bitmapFirstNFreeAndMark_zero zero (by omega) marked).2.2 unit
  · have positive : 1 ≤ (dmaPages n).toNat := by omega
    rcases bitmapFirstNFreeAndMark_cases positive marked with ⟨-, ⟨-, same⟩ | ⟨first, run, rfl, -⟩⟩
    · exact same unit
    · have low := dmaHeap_start_low sized made positive run
      have sign := (toInt_ofNat_iff (run.1.start_lt positive)).1.mpr low
      omega

/-- A failing call leaves no trace if and only if it does not fail in the mapping loop. -/
theorem dmaMapRange_undone_iff (sized : proc.Sized proc.dmaHeap)
    (walk : WalkInv kimg proc.pagingStruct.ps proc.pagingStruct.tables)
    (supply : Supply kimg proc.pagingStruct.tables mems proc.pagingStruct.mapped)
    (aligned : paddr.toNat % pageSize = 0) :
    (∀ st proc', dmaMapRange (dmaMapPage kimg mems) paddr n flags memory proc =
        .ok (.error st, proc') → Unchanged kimg proc proc') ↔
      RangeBacked kimg mems n memory proc := by
  constructor
  · intro undone bm start made positive run markable i inside
    by_contra unbacked
    rcases (bitmapFirstNFreeAndMark_first positive run).1 markable with ⟨bm', marked⟩
    have low := dmaHeap_start_low sized made positive run
    rw [(toInt_ofNat_iff (run.1.start_lt positive)).2 low] at marked
    have fails := (@dmaMapPages_range_fails_iff kimg mems paddr flags proc.dmaHeap proc.pagingStruct
      start (dmaPages n).toNat walk supply).mpr ⟨i, inside, unbacked⟩
    have call := @dmaMapRange_maps paddr n flags memory _ (dmaMapPage kimg mems) proc bm bm' start
      aligned made marked (Int.natCast_nonneg _) _ _ rfl
    rw [if_pos fails] at call
    have same := (undone _ _ call).1 start
    have set : bm'.isSet start = true := by
      rcases bitmapFirstNFreeAndMark_success positive marked (Int.natCast_nonneg _) with
        ⟨start', value, -, marks⟩
      rw [marks, ← Int.ofNat.inj value]
      simp only [Marks, Nat.le_refl, Nat.sub_self, Nat.zero_mul, Nat.add_zero, true_and]
      simp [show 0 < (dmaPages n).toNat by omega]
    have clear := run.1.2.2 0 (by omega)
    rw [Nat.add_zero, dmaProc_bitmap_marked made, ← same] at clear
    exact absurd (set.symm.trans clear) (by decide)
  · intro backed st proc' call
    rcases dmaMapRange_outcomes call with ⟨-, -, -, rfl⟩ |
      ⟨bm, start, bm', made, marked, ⟨failed, -, rfl⟩ | ⟨success, st', ps, mapped, rfl, value⟩⟩
    · exact ⟨fun _ => rfl, fun _ _ _ => rfl⟩
    · refine ⟨fun unit => ?_, fun _ _ _ => rfl⟩
      rw [← dmaProc_bitmap_marked made unit]
      exact dmaHeap_failed_clear sized made marked failed unit
    · have zero : (dmaPages n).toNat ≠ 0 := by
        intro none_
        rw [none_] at mapped
        cases mapped
        cases value
      have positive : 1 ≤ (dmaPages n).toNat := by omega
      rcases bitmapFirstNFreeAndMark_success positive marked success with ⟨first, rfl, run, -⟩
      have markable : bm.Markable (dmaPages n).toNat first := by
        by_contra blocked
        cases marked.symm.trans ((bitmapFirstNFreeAndMark_first positive run).2 blocked)
      have fails : st' < 0 := by
        by_contra done
        rw [if_neg done] at value
        cases value
      have unbacked := (@dmaMapPages_range_fails_iff kimg mems paddr flags proc.dmaHeap
        proc.pagingStruct first (dmaPages n).toNat walk supply).mp (by rw [mapped]; exact fails)
      rcases unbacked with ⟨i, inside, none_⟩
      exact absurd (backed bm first made positive run markable i inside) none_

end

/-- A process whose heap of 24 pages begins one page before the end of a page table. -/
def freshDmaProc : DmaProc DmaPaging :=
  ⟨⟨0xf01ff000, 24, by decide⟩, none, ⟨mmInitPagingStruct, ⟨fun _ => pdInit, fun _ => ptInit, []⟩⟩, 0⟩

/-- A request for 25 pages of 24 leaves no trace. -/
theorem dmaMapRange_undone_iff_large : ∃ proc',
    dmaMapRange (dmaMapPage ⟨0xc0000000⟩ fun _ => ⟨none, none⟩) 0x5000 0x19000 0 true freshDmaProc =
      .ok (.error (-12), proc') ∧ Unchanged ⟨0xc0000000⟩ freshDmaProc proc' := by
  have supply : Supply ⟨0xc0000000⟩ freshDmaProc.pagingStruct.tables (fun _ => ⟨none, none⟩) 0 :=
    ⟨nofun, nofun, nofun⟩
  have undone := @dmaMapRange_undone_iff ⟨0xc0000000⟩ _ freshDmaProc 0x5000 0x19000 0 true
    ⟨rfl, nofun⟩ (walkInv_init _ _) supply (by decide)
  refine ⟨_, rfl, undone.mpr ?_ _ _ rfl⟩
  rintro bm start made - run -
  cases made
  have pages : (dmaPages 0x19000).toNat = 25 := by decide
  have inside := run.1.2.1
  rw [pages] at inside
  dsimp only [freshDmaProc] at inside
  have units : (24 : BitVec 32).toNat = 24 := rfl
  omega

/-- The second of two pages needs another page table. Without memory for it the call fails, and the
    first page stays mapped and marked. -/
theorem dmaMapRange_leaves_traces : ∃ proc',
    dmaMapRange (dmaMapPage ⟨0xc0000000⟩ fun n =>
        if n = 0 then ⟨some 0xe0001000, some 0xe0002000⟩ else ⟨none, none⟩)
      0x5000 0x2000 0 true freshDmaProc = .ok (.error (-12), proc') ∧
    freshDmaProc.marked 0 = false ∧ proc'.marked 0 = true ∧
    freshDmaProc.pagingStruct.va2pa ⟨0xc0000000⟩ 0xf01ff000 = 0 ∧
    proc'.pagingStruct.va2pa ⟨0xc0000000⟩ 0xf01ff000 = 0x5000 := by
  refine ⟨_, rfl, rfl, rfl, rfl, rfl⟩

end Dxgmx
