import Dxgmx.Mem.DmaFailure
import Dxgmx.Mem.UserPages

open Library

namespace Dxgmx

/-- Where the processor finds an address, if its page is present. -/
def translate (kimg : KernelImage) (s : PagingState) (x : Ptr) : Option Ptr :=
  (presentEntry kimg s.ps s.tables x).map fun pte =>
    pteFramePaddr pte + BitVec.ofNat 32 (x.toNat % pageSize)

/-- The `count` bytes from `vaddr` on are those from `paddr` on. -/
def Shows (kimg : KernelImage) (s : PagingState) (vaddr paddr : Ptr) (count : Nat) : Prop :=
  ∀ k < count, translate kimg s (vaddr + BitVec.ofNat 32 k) = some (paddr + BitVec.ofNat 32 k)

/-- What is present stays so. -/
def StaysMapped (kimg : KernelImage) (s t : PagingState) : Prop :=
  ∀ x, (translate kimg s x).isSome → (translate kimg t x).isSome

section Pages

variable {kimg : KernelImage} {mems : Nat → MapMem}

theorem rangePage_toNat {vaddr : Ptr} (aligned : PageAligned vaddr) (i : Nat) :
    (vaddr + BitVec.ofNat 32 (i * pageSize)).toNat / pageSize =
      (vaddr.toNat / pageSize + i) % 2 ^ 20 := by
  rw [BitVec.toNat_add, BitVec.toNat_ofNat]
  unfold PageAligned pageSize at *
  omega

theorem rangePage_inj {vaddr : Ptr} (aligned : PageAligned vaddr) {i j : Nat} (first : i < 2 ^ 20)
    (second : j < 2 ^ 20) (same : SamePage (vaddr + BitVec.ofNat 32 (i * pageSize))
      (vaddr + BitVec.ofNat 32 (j * pageSize))) : i = j := by
  unfold SamePage at same
  rw [rangePage_toNat aligned, rangePage_toNat aligned] at same
  have bound := vaddr.isLt
  unfold pageSize at same
  omega

theorem mmMapPageArch_shows {ps ps' : PagingStruct} {tables tables' : Tables} {mem : MapMem}
    (inv : WalkInv kimg ps tables) (fresh : mem.Fresh kimg tables) {vaddr paddr : Ptr}
    {flags : BitVec 16} {st : Int}
    (call : mmMapPageArch kimg mem vaddr paddr flags ps tables = (st, ps', tables')) :
    (st < 0 ∧ ∀ x, presentEntry kimg ps' tables' x = presentEntry kimg ps tables x) ∨
      (st = 0 ∧ ∀ x, presentEntry kimg ps' tables' x =
        if SamePage x vaddr then some (pageEntry paddr flags) else presentEntry kimg ps tables x) := by
  rcases (mmMapPageArch_entries inv fresh call).2 with ⟨failed, same⟩ | ⟨done, -⟩
  · refine .inl ⟨by omega, fun x => ?_⟩
    unfold presentEntry
    rw [same]
  · subst done
    exact .inr ⟨rfl, mmMapPageArch_present inv fresh call⟩

theorem staysMapped_refl (s : PagingState) : StaysMapped kimg s s := fun _ => id

theorem StaysMapped.trans {s t u : PagingState} (first : StaysMapped kimg s t)
    (second : StaysMapped kimg t u) : StaysMapped kimg s u := fun x here => second x (first x here)

theorem staysMapped_entries {s t : PagingState}
    (kept : ∀ x pte, presentEntry kimg s.ps s.tables x = some pte →
      ∃ pte', presentEntry kimg t.ps t.tables x = some pte') : StaysMapped kimg s t := by
  intro x here
  unfold translate at here ⊢
  rw [Option.isSome_map] at here ⊢
  obtain ⟨pte, there⟩ := Option.isSome_iff_exists.mp here
  obtain ⟨pte', after⟩ := kept x pte there
  rw [after]
  rfl

/-- The mapping loop: what is present stays so, pages outside of the range keep their entries, and
    if it succeeds the pages of the range are there. -/
theorem dmaMapPages_shows {t t' : DmaPaging} {vaddr paddr : Ptr} {flags : BitVec 16}
    {pages left : Nat} {st : Int} (aligned : PageAligned vaddr) (small : pages ≤ 2 ^ 20)
    (few : left ≤ pages) (walk : WalkInv kimg t.ps t.tables)
    (supply : Supply kimg t.tables mems t.mapped)
    (call : dmaMapPages (dmaMapPage kimg mems) vaddr paddr flags pages left t = (st, t')) :
    WalkInv kimg t'.ps t'.tables ∧ Supply kimg t'.tables mems t'.mapped ∧
      StaysMapped kimg t.toPagingState t'.toPagingState ∧
      (∀ x, (∀ i < pages, pages - left ≤ i → ¬SamePage x (vaddr + BitVec.ofNat 32 (i * pageSize))) →
        presentEntry kimg t'.ps t'.tables x = presentEntry kimg t.ps t.tables x) ∧
      (0 ≤ st → ∀ i < pages, pages - left ≤ i → ∀ x,
        SamePage x (vaddr + BitVec.ofNat 32 (i * pageSize)) →
        presentEntry kimg t'.ps t'.tables x =
          some (pageEntry (paddr + BitVec.ofNat 32 (i * pageSize)) flags)) := by
  induction left generalizing t with
  | zero =>
    cases call
    exact ⟨walk, supply, staysMapped_refl _, fun _ _ => rfl, fun _ i _ _ => by omega⟩
  | succ left ih =>
    rcases here : mmMapPageArch kimg (mems t.mapped)
      (vaddr + BitVec.ofNat 32 ((pages - (left + 1)) * pageSize))
      (paddr + BitVec.ofNat 32 ((pages - (left + 1)) * pageSize)) flags t.ps t.tables with
      ⟨st1, ps1, tables1⟩
    rw [dmaMapPages_step here] at call
    have walk1 := (mmMapPageArch_entries walk supply.fresh here).1
    have supply1 := supply.next walk here
    rcases mmMapPageArch_shows walk supply.fresh here with ⟨failed, same⟩ | ⟨rfl, shows⟩
    · rw [if_pos failed] at call
      cases call
      refine ⟨walk1, supply1, staysMapped_entries fun x pte there => ⟨pte, ?_⟩, fun x _ => same x,
        fun done => absurd failed (by omega)⟩
      exact (same x).trans there
    · rw [if_neg (by decide)] at call
      obtain ⟨walk', supply', stays, outside, done⟩ := ih (by omega) walk1 supply1 call
      refine ⟨walk', supply', StaysMapped.trans (staysMapped_entries fun x pte there => ?_) stays,
        fun x other => ?_, fun nonneg i inside behind x page => ?_⟩
      · rw [shows]
        split
        · exact ⟨_, rfl⟩
        · exact ⟨pte, there⟩
      · rw [outside x fun i inside behind => other i inside (by omega), shows,
          if_neg (other _ (by omega) (Nat.le_refl _))]
      · by_cases first : i = pages - (left + 1)
        · -- later pages of the range are others
          rw [outside x fun j inside' behind' same => ?_, shows, first, if_pos (first ▸ page)]
          have equal := rangePage_inj aligned (by omega) (by omega) (page.symm.trans same)
          omega
        · exact done nonneg i inside (by omega) x page

end Pages

section Length

theorem dmaPages_toNat (n : BitVec 32) :
    (dmaPages n).toNat = (n.toNat + 4095) / 4096 * 4096 % 2 ^ 32 / 4096 := by
  have wide := bytesAlignUp64_toNat (n.setWidth 64) (BitVec.ofNat 64 pageSize) (by decide) (by
    have bound := n.isLt
    rw [BitVec.toNat_setWidth, Nat.mod_eq_of_lt (by omega)]
    unfold pageSize
    simp only [BitVec.toNat_ofNat]
    omega)
  have bound := n.isLt
  have page : (BitVec.ofNat 64 pageSize).toNat = 4096 := rfl
  have page32 : (BitVec.ofNat 32 pageSize).toNat = 4096 := rfl
  rw [page, BitVec.toNat_setWidth, Nat.mod_eq_of_lt (by omega : n.toNat < 2 ^ 64)] at wide
  unfold dmaPages
  rw [BitVec.toNat_udiv, BitVec.toNat_setWidth, wide, page32]
  rfl

theorem dmaPages_lt (n : BitVec 32) : (dmaPages n).toNat < 2 ^ 20 := by
  rw [dmaPages_toNat]
  omega

/-- The pages of a range hold all of it, unless the length is rounded up to nothing. -/
theorem dmaPages_covers {n : BitVec 32} (some_ : 1 ≤ (dmaPages n).toNat) :
    n.toNat ≤ (dmaPages n).toNat * pageSize := by
  have bound := n.isLt
  rw [dmaPages_toNat] at some_ ⊢
  unfold pageSize
  omega

end Length

section Range

variable {kimg : KernelImage} {mems : Nat → MapMem} {heap : Heap} {proc proc' : DmaProc DmaPaging}
  {paddr : Ptr} {n : BitVec 32} {flags : BitVec 16} {memory : Bool}

/-- The process has its heap and a paging struct whose mappings find fresh blocks. -/
structure DmaReady (kimg : KernelImage) (mems : Nat → MapMem) (heap : Heap)
    (proc : DmaProc DmaPaging) : Prop where
  sized : proc.Sized heap
  walk : WalkInv kimg proc.pagingStruct.ps proc.pagingStruct.tables
  supply : Supply kimg proc.pagingStruct.tables mems proc.pagingStruct.mapped

/-- The frames begin at a page, and the first run of clear units for them can be marked. -/
def MapMeets (memory : Bool) (proc : DmaProc DmaPaging) (paddr : Ptr) (n : BitVec 32) : Prop :=
  PageAligned paddr ∧ ∀ bm start, proc.bitmap memory = .ok bm →
    bm.FirstFreeRun (dmaPages n).toNat start → bm.Markable (dmaPages n).toNat start

theorem bitmapFirstNFreeAndMark_returns_iff {bm : Bitmap} {n : BitVec 32}
    (small : bm.size * 8 < 2 ^ 32) :
    (∃ r, bitmapFirstNFreeAndMark n bm = .ok r) ↔
      ∀ start, bm.FirstFreeRun n.toNat start → bm.Markable n.toNat start := by
  by_cases zero : n.toNat = 0
  · have none_ := bitmapScan_zero bm (bm.size - bm.byteCursor) bm.bitCursor.val ⟨0, 0, 0⟩
      (by simp only; omega)
    refine iff_of_true ?_ fun start _ => ?_
    · unfold bitmapFirstNFreeAndMark
      rw [zero, none_]
      exact ⟨_, rfl⟩
    · rw [zero]
      exact Nat.zero_le _
  · have positive : 1 ≤ n.toNat := by omega
    constructor
    · rintro ⟨r, call⟩ start run
      by_contra blocked
      cases call.symm.trans ((bitmapFirstNFreeAndMark_first positive run).2 blocked)
    · intro markable
      by_cases some_ : ∃ start, bm.FreeRun n.toNat start
      · obtain ⟨any, free⟩ := some_
        obtain ⟨start, run⟩ := firstFreeRun_of_freeRun free
        obtain ⟨bm', call⟩ := (bitmapFirstNFreeAndMark_first positive run).1 (markable start run)
        exact ⟨_, call⟩
      · obtain ⟨bm', call⟩ := bitmapFirstNFreeAndMark_none positive (not_exists.mp some_)
        exact ⟨_, call⟩

/-- The assertions of the call hold exactly under its condition. -/
theorem dmaMapRange_returns_iff (sized : proc.Sized heap) :
    (∃ r, dmaMapRange (dmaMapPage kimg mems) paddr n flags memory proc = .ok r) ↔
      MapMeets memory proc paddr n := by
  have span := heap_pagespan_le heap
  have bits : ∀ bm, proc.bitmap memory = .ok bm → bm.size * 8 < 2 ^ 32 := by
    intro bm made
    have size := dmaProc_bitmap_sized sized made
    omega
  constructor
  · rintro ⟨⟨result, proc'⟩, call⟩
    refine ⟨(assert_bind_ok.mp call).1, fun bm start made run => ?_⟩
    rcases dmaMapRange_outcomes call with ⟨st, failed, -⟩ | ⟨bm', first, after, made', marked, -⟩
    · cases made.symm.trans failed
    · cases made.symm.trans made'
      exact (bitmapFirstNFreeAndMark_returns_iff (bits bm made)).mp ⟨_, marked⟩ start run
  · rintro ⟨aligned, markable⟩
    cases made : proc.bitmap memory with
    | error st =>
      unfold dmaMapRange
      refine ⟨(.error st, proc), assert_bind_ok.mpr ⟨aligned, ?_⟩⟩
      rw [made]
      rfl
    | ok bm =>
      obtain ⟨⟨start, bm'⟩, marked⟩ :=
        (bitmapFirstNFreeAndMark_returns_iff (bits bm made)).mpr fun start => markable bm start made
      by_cases failed : start < 0
      · refine ⟨(.error (-12), { proc with dmaBitmap := some bm' }), ?_⟩
        unfold dmaMapRange
        refine assert_bind_ok.mpr ⟨aligned, ?_⟩
        rw [made]
        refine Exec.bind_ok.mpr ⟨(start, bm'), marked, ?_⟩
        exact if_pos failed
      · exact ⟨_, dmaMapRange_maps aligned made marked (by omega) rfl⟩

theorem rangeShows {s : PagingState} {vaddr : Ptr} {pages : Nat} (aligned : PageAligned vaddr)
    (frames : PageAligned paddr)
    (mapped : ∀ i < pages, ∀ x, SamePage x (vaddr + BitVec.ofNat 32 (i * pageSize)) →
      presentEntry kimg s.ps s.tables x =
        some (pageEntry (paddr + BitVec.ofNat 32 (i * pageSize)) flags)) :
    Shows kimg s vaddr paddr (pages * pageSize) := by
  intro k inside
  have page : k / pageSize < pages := by
    unfold pageSize at *
    omega
  have split := Nat.div_add_mod' k pageSize
  have same : SamePage (vaddr + BitVec.ofNat 32 k)
      (vaddr + BitVec.ofNat 32 (k / pageSize * pageSize)) := by
    unfold SamePage PageAligned at *
    rw [BitVec.toNat_add, BitVec.toNat_add, BitVec.toNat_ofNat, BitVec.toNat_ofNat]
    unfold pageSize at *
    omega
  have offset : (vaddr + BitVec.ofNat 32 k).toNat % pageSize = k % pageSize := by
    unfold PageAligned at aligned
    rw [BitVec.toNat_add, BitVec.toNat_ofNat]
    unfold pageSize at *
    omega
  have frame : pteFramePaddr (pageEntry (paddr + BitVec.ofNat 32 (k / pageSize * pageSize)) flags) =
      paddr + BitVec.ofNat 32 (k / pageSize * pageSize) :=
    paddrOf_baseOf (pageAligned_add frames _)
  unfold translate
  rw [mapped _ page _ same, Option.map_some, frame, offset, BitVec.add_assoc, ← BitVec.ofNat_add,
    split]

/-- A call keeps what is present. The range that it returns shows the frames. -/
theorem dmaMapRange_shows (aligned : PageAligned heap.vaddr) (ready : DmaReady kimg mems heap proc)
    {result : Except Int Ptr}
    (call : dmaMapRange (dmaMapPage kimg mems) paddr n flags memory proc = .ok (result, proc')) :
    DmaReady kimg mems heap proc' ∧
      StaysMapped kimg proc.pagingStruct.toPagingState proc'.pagingStruct.toPagingState ∧
      ∀ vaddr, result = .ok vaddr → PageAligned vaddr ∧ 1 ≤ (dmaPages n).toNat ∧
        Shows kimg proc'.pagingStruct.toPagingState vaddr paddr
          ((dmaPages n).toNat * pageSize) := by
  have sized : proc'.Sized heap :=
    @step_sized _ _ heap proc proc' ⟨paddr, n, flags, memory, result⟩ call ready.sized
  have frames := (assert_bind_ok.mp call).1
  rcases dmaMapRange_outcomes call with ⟨st, -, rfl, rfl⟩ |
    ⟨bm, start, bm', made, marked, ⟨-, rfl, rfl⟩ | ⟨success, st, ps, mapped, rfl, value⟩⟩
  · exact ⟨ready, staysMapped_refl _, nofun⟩
  · exact ⟨⟨sized, ready.walk, ready.supply⟩, staysMapped_refl _, nofun⟩
  · have span := heap_pagespan_le heap
    have size := dmaProc_bitmap_sized ready.sized made
    have positive : 1 ≤ (dmaPages n).toNat := by
      by_contra none_
      have zero := (bitmapFirstNFreeAndMark_zero (by omega) (by omega) marked).2.1
      omega
    obtain ⟨first, rfl, -⟩ := bitmapFirstNFreeAndMark_success positive marked success
    have start : PageAligned (proc.dmaHeap.rangeStart first) := by
      have page := pageAligned_add aligned first
      rw [ready.sized.1]
      have here := @rangeStart_page heap first 0
      rw [Nat.zero_mul, Nat.add_zero, BitVec.add_zero] at here
      rw [here]
      exact page
    obtain ⟨walk', supply', stays, -, done⟩ := dmaMapPages_shows start
      (Nat.le_of_lt (dmaPages_lt n)) (Nat.le_refl _) ready.walk ready.supply mapped
    refine ⟨⟨sized, walk', supply'⟩, stays, fun vaddr same => ?_⟩
    rw [value] at same
    split at same
    · cases same
    · cases same
      refine ⟨start, positive, ?_⟩
      exact rangeShows start frames fun i inside => done (by omega) i inside (by omega)

end Range

end Dxgmx
