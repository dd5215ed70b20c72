import Dxgmx.Core.InterruptEntry
import Dxgmx.Mem.Kmalloc
import Dxgmx.Mem.PageAccess
import Dxgmx.Mem.UserPageFailure
import Dxgmx.Utils.Words

open Library

namespace Dxgmx

inductive PageFaultReason
  | protFault
  | absent
  deriving DecidableEq, Repr

/-- What the handler reads of the kernel image, and the heaps that are registered with `kmalloc`. -/
structure FaultEnv where
  kimg : KernelImage
  kimgUseraccessStart : Ptr
  kimgUseraccessEnd : Ptr
  userAccessFaultStub : Ptr
  kmalloc : Kmalloc
  offsetAligned : PageAligned kimg.kimgMapOffset
  heapsAligned : ∀ heap ∈ kmalloc.heaps, PageAligned heap.vaddr

/-- `frames` is the physical memory, less the page tables. -/
structure KernelMemory where
  ps : PagingStruct
  tables : Tables
  falloc : Falloc
  frames : Ptr → Byte

def KernelMemory.paging (s : KernelMemory) : PagingState := ⟨s.ps, s.tables⟩

namespace FaultEnv

variable (env : FaultEnv)

def ownsVa (va : Ptr) : Bool := env.kmalloc.kmallocOwnsVa va.toNat

def inUseraccess (ip : Ptr) : Bool :=
  decide (env.kimgUseraccessStart ≤ ip) && decide (ip < env.kimgUseraccessEnd)

/-- Stores to the page at `vaddr`, which the processor lets through if the page is mapped for it. -/
def memsetPage (vaddr : Ptr) (byte : Byte) (s : KernelMemory) : Exec KernelMemory :=
  match presentEntry env.kimg s.ps s.tables vaddr, effectiveAccess env.kimg s.paging vaddr with
  | some pte, some access =>
    if access.writable then
      .ok { s with frames := fun a => if SamePage a (pteFramePaddr pte) then byte else s.frames a }
    else .error .fault
  | _, _ => .error .fault

/-- `mem` is what `kmalloc_aligned` answers where a table is needed. -/
def pagefaultHandleAbsentKernelHeap (mem : MapMem) (faultaddr : Ptr) (s : KernelMemory) :
    Exec KernelMemory := do
  let alignedFaultaddr : Ptr :=
    (bytesAlignDown64 (faultaddr.setWidth 64) (BitVec.ofNat 64 pageSize)).setWidth 32
  let frame := alignedFaultaddr - env.kimg.kimgMapOffset
  let (st, falloc) ← fallocOneAt frame s.falloc
  if st < 0 then .error .panic
  else do
    let (st, ps, tables) ← mmMapPage env.kimg mem alignedFaultaddr frame pageRW s.ps s.tables
    if st < 0 then .error .panic
    else env.memsetPage alignedFaultaddr 0 { s with ps, tables, falloc }

/-- In ring 3, and where the kernel faults outside its heaps, the kernel stops itself. -/
def pagefaultHandleAbsent (mem : MapMem) (faultaddr : Ptr) (ring : BitVec 8) (s : KernelMemory) :
    Exec KernelMemory :=
  if ring = 0 then
    if env.ownsVa faultaddr then env.pagefaultHandleAbsentKernelHeap mem faultaddr s
    else .error .panic
  else .error .panic

/-- A protection fault stops the kernel in every ring. -/
def pagefaultHandle (mem : MapMem) (faultaddr ip : Ptr) (ring : BitVec 8) (reason : PageFaultReason)
    (s : KernelMemory) : Exec (Ptr × KernelMemory) :=
  match reason with
  | .protFault => if env.inUseraccess ip then .ok (env.userAccessFaultStub, s) else .error .panic
  | .absent =>
    if env.inUseraccess ip && !env.ownsVa faultaddr then .ok (env.userAccessFaultStub, s)
    else do
      let s ← env.pagefaultHandleAbsent mem faultaddr ring s
      pure (ip, s)

def pagefaultReason (code : BitVec 32) : PageFaultReason :=
  if code &&& 1 ≠ 0 then .protFault else .absent

def pagefaultRing (xcs : BitVec 32) : BitVec 8 := (xcs &&& 3).setWidth 8

def pagefaultIsr (mem : MapMem) (cr2 : Ptr) (frame : InterruptFrame) (s : KernelMemory) :
    Exec (InterruptFrame × KernelMemory) := do
  let (xip, s) ← env.pagefaultHandle mem cr2 frame.xip (pagefaultRing frame.xcs)
    (pagefaultReason frame.code) s
  pure ({ frame with xip }, s)

end FaultEnv

theorem pageBase_congr {x y : Ptr} (same : SamePage x y) : pageBase x = pageBase y :=
  (pageBase_eq (pageBase_aligned y)).mpr (same.trans (samePage_pageBase y))

theorem bytesAlignDown64_page (va : Ptr) :
    (bytesAlignDown64 (va.setWidth 64) (BitVec.ofNat 64 pageSize)).setWidth 32 = pageBase va := by
  have bound := va.isLt
  apply BitVec.eq_of_toNat_eq
  rw [pageBase_toNat]
  unfold bytesAlignDown64 pageSize
  have wide : va.toNat % 2 ^ 64 = va.toNat := Nat.mod_eq_of_lt (by omega)
  have page : 4096 % 2 ^ 64 = 4096 := rfl
  simp only [BitVec.toNat_setWidth, BitVec.toNat_sub, BitVec.toNat_umod, BitVec.toNat_ofNat, wide,
    page]
  omega

theorem PageAligned.sub {a b : Ptr} (left : PageAligned a) (right : PageAligned b) :
    PageAligned (a - b) := by
  have first := a.isLt
  have second := b.isLt
  unfold PageAligned pageSize at *
  rw [BitVec.toNat_sub]
  omega

/-- The end of a heap of whole pages is the start of a page. -/
theorem heapIsAddrInside_samePage {heap : Heap} (aligned : PageAligned heap.vaddr) {x y : Ptr}
    (same : SamePage x y) : heapIsAddrInside x.toNat heap ↔ heapIsAddrInside y.toNat heap := by
  unfold heapIsAddrInside
  unfold SamePage at same
  unfold PageAligned at aligned
  unfold pageSize at *
  omega

section Space

variable {env : FaultEnv} {s t : KernelMemory}

theorem FaultEnv.ownsVa_samePage {x y : Ptr} (same : SamePage x y) :
    env.ownsVa x = env.ownsVa y := by
  unfold ownsVa Kmalloc.kmallocOwnsVa
  apply Bool.eq_iff_iff.mpr
  simp only [List.any_eq_true, decide_eq_true_eq]
  apply exists_congr
  intro heap
  apply and_congr_right
  intro member
  exact heapIsAddrInside_samePage (env.heapsAligned heap member) same

/-- The frame that belongs to a page of the kernel heap. -/
def FaultEnv.heapFrame (env : FaultEnv) (va : Ptr) : Ptr := pageBase va - env.kimg.kimgMapOffset

theorem FaultEnv.heapFrame_aligned (va : Ptr) : PageAligned (env.heapFrame va) :=
  (pageBase_aligned va).sub env.offsetAligned

theorem FaultEnv.heapFrame_eq_iff {x y : Ptr} : env.heapFrame x = env.heapFrame y ↔ SamePage x y := by
  constructor
  · intro same
    have bases : pageBase x = pageBase y := by
      have back := congrArg (· + env.kimg.kimgMapOffset) same
      simpa only [heapFrame, BitVec.sub_add_cancel] using back
    have first := samePage_pageBase x
    have second := samePage_pageBase y
    rw [bases] at first
    exact first.trans second.symm
  · intro same
    unfold heapFrame
    rw [pageBase_congr same]

/-- Accesses of other pages are let through as before. -/
theorem mmMapPageArch_keeps (walk : WalkInv env.kimg s.ps s.tables) {mem : MapMem}
    (fresh : mem.Fresh env.kimg s.tables) {vaddr paddr : Ptr} {flags : BitVec 16} {st : Int}
    (call : mmMapPageArch env.kimg mem vaddr paddr flags s.ps s.tables = (st, t.ps, t.tables))
    {x : Ptr} (other : ¬ (st = 0 ∧ SamePage x vaddr)) :
    presentEntry env.kimg t.ps t.tables x = presentEntry env.kimg s.ps s.tables x ∧
      ∀ a, effectiveAccess env.kimg s.paging x = some a →
        ∃ b, effectiveAccess env.kimg t.paging x = some b ∧
          (a.writable = true → b.writable = true) := by
  have entry : presentEntry env.kimg t.ps t.tables x = presentEntry env.kimg s.ps s.tables x := by
    rcases mmMapPageArch_entries walk fresh call with ⟨-, ⟨-, same⟩ | ⟨done, -⟩⟩
    · unfold presentEntry
      rw [same]
    · rw [done] at call
      rw [mmMapPageArch_present walk fresh call, if_neg fun same => other ⟨done, same⟩]
  refine ⟨entry, fun a allowed => ?_⟩
  have above := mmMapPageArch_access walk fresh call
  unfold effectiveAccess KernelMemory.paging at allowed ⊢
  dsimp only at allowed ⊢
  rw [entry]
  split at allowed
  · rename_i pte pde here dir
    cases allowed
    rw [here]
    by_cases done : st = 0
    · rw [above.1 done, dir]
      simp only [Option.getD_some]
      split_ifs
      · refine ⟨_, rfl, fun writable => ?_⟩
        simp only [Access.meet, Access.promote, Bool.and_eq_true, Bool.or_eq_true] at writable ⊢
        exact ⟨writable.1, .inl writable.2⟩
      · exact ⟨_, rfl, id⟩
      · exact ⟨_, rfl, id⟩
    · rcases above.2 done (pdpteIdx x) (pdeIdx x) with same | same
      · rw [same, dir]
        exact ⟨_, rfl, id⟩
      · rw [same, dir]
        exact ⟨_, rfl, id⟩
  · cases allowed

/-- A page that was just mapped for reading and writing. -/
theorem mmMapPageArch_access_rw (walk : WalkInv env.kimg s.ps s.tables) {mem : MapMem}
    (fresh : mem.Fresh env.kimg s.tables) {vaddr paddr : Ptr}
    (call : mmMapPageArch env.kimg mem vaddr paddr pageRW s.ps s.tables = (0, t.ps, t.tables))
    {x : Ptr} (same : SamePage x vaddr) :
    effectiveAccess env.kimg t.paging x = some ⟨true, false, false⟩ := by
  have entry := mmMapPageArch_present walk fresh call x
  have above := (mmMapPageArch_access walk fresh call).1 rfl (pdpteIdx x) (pdeIdx x)
  rw [if_pos same] at entry
  rw [if_pos ((samePage_iff x vaddr).mpr same).1] at above
  unfold effectiveAccess KernelMemory.paging
  dsimp only
  rw [entry, above]
  dsimp only
  rw [pageEntry_access]
  simp [flagAccess, Access.meet, Access.promote, pageRW, pageR, pageW, pageX, pageUser]

/-- What a handled fault in the kernel heap does. -/
structure HeapMapped (env : FaultEnv) (va : Ptr) (s t : KernelMemory) : Prop where
  walk : WalkInv env.kimg t.ps t.tables
  entry : ∀ x, presentEntry env.kimg t.ps t.tables x =
    if SamePage x va then some (pageEntry (env.heapFrame va) pageRW)
    else presentEntry env.kimg s.ps s.tables x
  access : ∀ x, SamePage x va → effectiveAccess env.kimg t.paging x = some ⟨true, false, false⟩
  others : ∀ x, ¬ SamePage x va → ∀ a, effectiveAccess env.kimg s.paging x = some a →
    ∃ b, effectiveAccess env.kimg t.paging x = some b ∧ (a.writable = true → b.writable = true)
  frames : ∀ g : Frame,
    t.falloc.available g.val = (s.falloc.available g.val && decide (g.val ≠ env.heapFrame va))
  zeroed : ∀ a, t.frames a = if SamePage a (env.heapFrame va) then 0 else s.frames a

theorem fallocOneAt_taken {base : Ptr} (aligned : PageAligned base) {s : Falloc}
    (free : s.available base = true) : ∃ t, fallocOneAt base s = .ok (0, t) ∧
      ∀ g : Frame, t.available g.val = (s.available g.val && decide (g.val ≠ base)) := by
  have page : base.toNat % pageSize = 0 := aligned
  have call : ∃ r, fallocOneAt base s = .ok r := by
    unfold fallocOneAt fallocIsFrameAvailable
    simp only [assert, if_pos page, Exec.ok_bind, pure_bind, if_pos free]
    exact ⟨_, rfl⟩
  rcases call with ⟨⟨st, t⟩, call⟩
  rcases fallocOneAt_cases call with ⟨-, ⟨-, rfl, after⟩ | ⟨used, -⟩⟩
  · refine ⟨t, call, fun g => ?_⟩
    rw [after]
    by_cases same : g.val = base
    · simp [same]
    · have apart : ¬(frameWord g.val = frameWord base ∧ frameBit g.val = frameBit base) :=
        fun both => same (frame_ext g.property aligned both.1 both.2)
      simp [same, apart]
  · rw [free] at used
    cases used

theorem fallocOneAt_refused {base : Ptr} (aligned : PageAligned base) {s : Falloc}
    (used : s.available base = false) : fallocOneAt base s = .ok (-12, s) := by
  have page : base.toNat % pageSize = 0 := aligned
  unfold fallocOneAt fallocIsFrameAvailable
  simp only [assert, if_pos page, Exec.ok_bind, pure_bind, used]
  rfl

theorem mmMapPage_aligned {kimg : KernelImage} {mem : MapMem} {vaddr paddr : Ptr}
    (first : PageAligned vaddr) (second : PageAligned paddr) (flags : BitVec 16) (ps : PagingStruct)
    (tables : Tables) : mmMapPage kimg mem vaddr paddr flags ps tables =
      .ok (mmMapPageArch kimg mem vaddr paddr flags ps tables) := by
  have page : vaddr.toNat % pageSize = 0 := first
  have frame : paddr.toNat % pageSize = 0 := second
  unfold mmMapPage
  simp only [assert, if_pos page, if_pos frame, Exec.ok_bind]
  rfl

theorem tablesAvailable_pageBase {mem : MapMem} {va : Ptr} :
    TablesAvailable env.kimg mem s.ps s.tables (pageBase va) ↔
      TablesAvailable env.kimg mem s.ps s.tables va := by
  rcases (samePage_iff va (pageBase va)).mpr (samePage_pageBase va) with ⟨⟨pdpte, pde⟩, -⟩
  unfold TablesAvailable
  rw [pdpte, pde]

/-- The `memset` of a page that was just mapped does not fault. -/
theorem memsetPage_mapped (walk : WalkInv env.kimg s.ps s.tables) {mem : MapMem}
    (fresh : mem.Fresh env.kimg s.tables) {vaddr paddr : Ptr} (aligned : PageAligned paddr)
    (call : mmMapPageArch env.kimg mem vaddr paddr pageRW s.ps s.tables = (0, t.ps, t.tables))
    (byte : Byte) : env.memsetPage vaddr byte t =
      .ok { t with frames := fun a => if SamePage a paddr then byte else t.frames a } := by
  have entry := mmMapPageArch_present walk fresh call vaddr
  rw [if_pos (show SamePage vaddr vaddr from rfl)] at entry
  unfold FaultEnv.memsetPage
  rw [entry, mmMapPageArch_access_rw walk fresh call rfl]
  dsimp only
  rw [if_pos rfl, pteFramePaddr_pageEntry aligned]

theorem pagefaultHandleAbsentKernelHeap_eq (mem : MapMem) (va : Ptr) :
    env.pagefaultHandleAbsentKernelHeap mem va s = (do
      let (st, falloc) ← fallocOneAt (env.heapFrame va) s.falloc
      if st < 0 then .error .panic
      else do
        let (st, ps, tables) ←
          mmMapPage env.kimg mem (pageBase va) (env.heapFrame va) pageRW s.ps s.tables
        if st < 0 then .error .panic
        else env.memsetPage (pageBase va) 0 { s with ps, tables, falloc }) := by
  unfold FaultEnv.pagefaultHandleAbsentKernelHeap
  rw [bytesAlignDown64_page]
  rfl

theorem heapFault_outcome (walk : WalkInv env.kimg s.ps s.tables) {mem : MapMem}
    (fresh : mem.Fresh env.kimg s.tables) (va : Ptr) :
    if s.falloc.available (env.heapFrame va) = true ∧
        TablesAvailable env.kimg mem s.ps s.tables va then
      ∃ t, env.pagefaultHandleAbsentKernelHeap mem va s = .ok t ∧ HeapMapped env va s t
    else env.pagefaultHandleAbsentKernelHeap mem va s = .error .panic := by
  have aligned := env.heapFrame_aligned va
  have page := samePage_pageBase va
  rw [pagefaultHandleAbsentKernelHeap_eq]
  split
  · rename_i possible
    rcases fallocOneAt_taken aligned possible.1 with ⟨falloc, took, frames⟩
    rw [took, Exec.ok_bind, mmMapPage_aligned (pageBase_aligned va) aligned]
    cases call : mmMapPageArch env.kimg mem (pageBase va) (env.heapFrame va) pageRW s.ps s.tables with
    | mk st rest =>
      rcases rest with ⟨ps, tables⟩
      have done := (mmMapPageArch_done_iff walk fresh call).mpr
        (tablesAvailable_pageBase.mpr possible.2)
      cases done
      let mapped : KernelMemory := { s with ps, tables, falloc }
      have stored := @memsetPage_mapped env s mapped walk mem fresh _ _ aligned call 0
      refine ⟨_, stored, ?_⟩
      constructor
      · exact (mmMapPageArch_entries walk fresh call).1
      · intro x
        rw [mmMapPageArch_present walk fresh call]
        have same : SamePage x (pageBase va) ↔ SamePage x va :=
          ⟨fun same => same.trans page.symm, fun same => same.trans page⟩
        simp only [same]
      · intro x same
        exact @mmMapPageArch_access_rw env s mapped walk mem fresh _ _ call x (same.trans page)
      · intro x other
        exact (@mmMapPageArch_keeps env s mapped walk mem fresh _ _ _ _ call x
          fun both => other (both.2.trans page.symm)).2
      · exact frames
      · exact fun a => rfl
  · rename_i impossible
    by_cases free : s.falloc.available (env.heapFrame va) = true
    · rcases fallocOneAt_taken aligned free with ⟨falloc, took, -⟩
      rw [took, Exec.ok_bind, mmMapPage_aligned (pageBase_aligned va) aligned]
      cases call : mmMapPageArch env.kimg mem (pageBase va) (env.heapFrame va) pageRW s.ps s.tables with
      | mk st rest =>
        have failed : st = -12 := by
          rcases (mmMapPageArch_entries walk fresh call).2 with ⟨failed, -⟩ | ⟨done, -⟩
          · exact failed
          · exact absurd ⟨free, tablesAvailable_pageBase.mp
              ((mmMapPageArch_done_iff walk fresh call).mp done)⟩ impossible
        cases failed
        rfl
    · rw [fallocOneAt_refused aligned (Bool.not_eq_true _ ▸ free)]
      rfl

/-- The access is repeated at a stub that reports the fault. -/
def FaultEnv.Redirects (env : FaultEnv) (cr2 : Ptr) (frame : InterruptFrame) : Prop :=
  env.inUseraccess frame.xip = true ∧
    (FaultEnv.pagefaultReason frame.code = .protFault ∨ env.ownsVa cr2 = false)

/-- The kernel faulted on a page of its heap that is not mapped yet. -/
def FaultEnv.HeapAbsent (env : FaultEnv) (cr2 : Ptr) (frame : InterruptFrame) : Prop :=
  FaultEnv.pagefaultReason frame.code = .absent ∧ FaultEnv.pagefaultRing frame.xcs = 0 ∧
    env.ownsVa cr2 = true

instance (cr2 : Ptr) (frame : InterruptFrame) : Decidable (env.Redirects cr2 frame) :=
  inferInstanceAs (Decidable (_ ∧ _))

instance (cr2 : Ptr) (frame : InterruptFrame) : Decidable (env.HeapAbsent cr2 frame) :=
  inferInstanceAs (Decidable (_ ∧ _))

theorem pagefaultIsr_cases (mem : MapMem) (cr2 : Ptr) (frame : InterruptFrame) :
    env.pagefaultIsr mem cr2 frame s =
      if env.Redirects cr2 frame then .ok ({ frame with xip := env.userAccessFaultStub }, s)
      else if env.HeapAbsent cr2 frame then do
        let s ← env.pagefaultHandleAbsentKernelHeap mem cr2 s
        pure (frame, s)
      else .error .panic := by
  unfold FaultEnv.pagefaultIsr FaultEnv.pagefaultHandle FaultEnv.pagefaultHandleAbsent
    FaultEnv.Redirects FaultEnv.HeapAbsent
  have either : FaultEnv.pagefaultReason frame.code = .protFault ∨
      FaultEnv.pagefaultReason frame.code = .absent := by
    cases FaultEnv.pagefaultReason frame.code with
    | protFault => exact .inl rfl
    | absent => exact .inr rfl
  rcases either with reason | reason
  · by_cases user : env.inUseraccess frame.xip = true
    · simp [reason, user, Bind.bind, Except.bind, Pure.pure, Except.pure]
    · simp [reason, user, Bind.bind, Except.bind]
  · by_cases owned : env.ownsVa cr2 = true
    · by_cases ring : FaultEnv.pagefaultRing frame.xcs = 0
      · cases env.pagefaultHandleAbsentKernelHeap mem cr2 s with
        | error stop => simp [reason, owned, ring, Bind.bind, Except.bind]
        | ok t => simp [reason, owned, ring, Bind.bind, Except.bind, Pure.pure, Except.pure]
      · simp only [BitVec.ofNat_eq_ofNat] at ring
        simp [reason, owned, ring, Bind.bind, Except.bind]
    · by_cases user : env.inUseraccess frame.xip = true
      · simp [reason, owned, user, Bind.bind, Except.bind, Pure.pure, Except.pure]
      · simp [reason, owned, user, Bind.bind, Except.bind]

/-- A page fault is reported to `.useraccess` code, maps the page of the heap, or stops the kernel. -/
theorem pagefault_outcome (walk : WalkInv env.kimg s.ps s.tables) {mem : MapMem}
    (fresh : mem.Fresh env.kimg s.tables) (cr2 : Ptr) (frame : InterruptFrame) :
    if env.Redirects cr2 frame then
      env.pagefaultIsr mem cr2 frame s = .ok ({ frame with xip := env.userAccessFaultStub }, s)
    else if env.HeapAbsent cr2 frame ∧ s.falloc.available (env.heapFrame cr2) = true ∧
        TablesAvailable env.kimg mem s.ps s.tables cr2 then
      ∃ t, env.pagefaultIsr mem cr2 frame s = .ok (frame, t) ∧ HeapMapped env cr2 s t
    else env.pagefaultIsr mem cr2 frame s = .error .panic := by
  rw [pagefaultIsr_cases]
  by_cases redirects : env.Redirects cr2 frame
  · rw [if_pos redirects, if_pos redirects]
  · rw [if_neg redirects, if_neg redirects]
    by_cases wanted : env.HeapAbsent cr2 frame
    · have outcome := heapFault_outcome walk fresh cr2
      rw [if_pos wanted]
      split at outcome
      · rename_i possible
        rcases outcome with ⟨t, done, mapped⟩
        rw [if_pos ⟨wanted, possible⟩, done]
        exact ⟨t, rfl, mapped⟩
      · rename_i impossible
        rw [if_neg fun both => impossible both.2, outcome]
        rfl
    · rw [if_neg wanted, if_neg fun both => wanted both.1]

/-- A heap of 1 MiB at 2 MiB of the kernel's space. -/
def heapAt2MiB : FaultEnv where
  kimg := ⟨0xc0000000⟩
  kimgUseraccessStart := 0xc0101000
  kimgUseraccessEnd := 0xc0102000
  userAccessFaultStub := 0xc0101f00
  kmalloc := ⟨16, [⟨0xc0200000, 256, by decide⟩], some 0, ⟨0, 0, 0, 0⟩, fun _ => 0⟩
  offsetAligned := by decide
  heapsAligned := by decide

def unmappedMemory : KernelMemory := ⟨mmInitPagingStruct, noTables, Falloc.boot, fun _ => 0xff⟩

def heapTables : MapMem := ⟨some 0xc0103000, some 0xc0104000⟩

theorem heapTables_fresh : heapTables.Fresh heapAt2MiB.kimg noTables := by
  refine ⟨fun b same => ?_, fun b same => ?_, fun b same => ?_⟩
  · cases same
    exact ⟨⟨by decide, by decide⟩, nofun⟩
  · cases same
    exact ⟨⟨by decide, by decide⟩, nofun⟩
  · cases same
    decide

/-- The kernel stores to memory. -/
def kernelStoreFrame : InterruptFrame := ⟨0, 0, 0, 0, 0, 0, 0, 2, 0xc0105000, 8, 0⟩

theorem pagefault_outcome_heap : ∃ t,
    heapAt2MiB.pagefaultIsr heapTables 0xc0200010 kernelStoreFrame unmappedMemory =
      .ok (kernelStoreFrame, t) ∧ HeapMapped heapAt2MiB 0xc0200010 unmappedMemory t := by
  have outcome := @pagefault_outcome heapAt2MiB unmappedMemory (walkInv_init _ _) heapTables
    heapTables_fresh 0xc0200010 kernelStoreFrame
  rw [if_neg (by decide), if_pos (by decide)] at outcome
  exact outcome

theorem pagefaultIsr_ok (walk : WalkInv env.kimg s.ps s.tables) {mem : MapMem}
    (fresh : mem.Fresh env.kimg s.tables) {cr2 : Ptr} {frame after : InterruptFrame}
    (call : env.pagefaultIsr mem cr2 frame s = .ok (after, t)) :
    (¬ env.HeapAbsent cr2 frame ∧ t = s) ∨
      (env.HeapAbsent cr2 frame ∧ s.falloc.available (env.heapFrame cr2) = true ∧
        HeapMapped env cr2 s t) := by
  rw [pagefaultIsr_cases] at call
  split at call
  · rename_i redirects
    cases call
    refine .inl ⟨?_, rfl⟩
    rintro ⟨absent, -, owned⟩
    rcases redirects.2 with protFault | elsewhere
    · cases protFault.symm.trans absent
    · cases elsewhere.symm.trans owned
  · split at call
    · rename_i wanted
      have outcome := heapFault_outcome walk fresh cr2
      split at outcome
      · rename_i possible
        rcases outcome with ⟨u, done, mapped⟩
        rw [done] at call
        cases call
        exact .inr ⟨wanted, possible.1, mapped⟩
      · rw [outcome] at call
        cases call
    · cases call

inductive KernelEvent
  | fault (mem : MapMem) (cr2 : Ptr) (frame after : InterruptFrame)
  | falloc (call : FallocCall)
  | map (call : MapCall)
  | store (frames : Ptr → Byte)

/-- Only the page fault handler maps pages of the heap, and their frames are not given back. -/
def KernelStep (env : FaultEnv) (s : KernelMemory) (event : KernelEvent) (t : KernelMemory) : Prop :=
  match event with
  | .fault mem cr2 frame after =>
    mem.Fresh env.kimg s.tables ∧ env.pagefaultIsr mem cr2 frame s = .ok (after, t)
  | .falloc call =>
    (s.falloc.perform call = some t.falloc ∧ SafeFree s.falloc call ∧
      ∀ x f, env.ownsVa x = true → call.gives f → f.val ≠ env.heapFrame x) ∧
      t = { s with falloc := t.falloc }
  | .map call =>
    (MapStep env.kimg s.paging call t.paging ∧ env.ownsVa call.vaddr = false) ∧
      t = { s with ps := t.ps, tables := t.tables }
  | .store frames => t = { s with frames }

/-- The events that map the page of an address of the heap. -/
def KernelEvent.Maps (env : FaultEnv) (x : Ptr) : KernelEvent → Prop
  | .fault _ cr2 frame _ => env.HeapAbsent cr2 frame ∧ SamePage x cr2
  | _ => False

def KernelEvent.takes (env : FaultEnv) : KernelEvent → Frame → Prop
  | .fault _ cr2 frame _, f => env.HeapAbsent cr2 frame ∧ f.val = env.heapFrame cr2
  | .falloc call, f => call.takes f
  | _, _ => False

def KernelEvent.gives : KernelEvent → Frame → Prop
  | .falloc call, f => call.gives f
  | _, _ => False

def HeapPresent (env : FaultEnv) (s : KernelMemory) (x : Ptr) : Prop :=
  (presentEntry env.kimg s.ps s.tables x).isSome

/-- A page of the heap that is mapped. -/
structure HeapPage (env : FaultEnv) (s : KernelMemory) (x : Ptr) : Prop where
  direct : ∃ pte, presentEntry env.kimg s.ps s.tables x = some pte ∧
    pteFramePaddr pte = env.heapFrame x
  writable : ∃ a, effectiveAccess env.kimg s.paging x = some a ∧ a.writable = true
  taken : s.falloc.available (env.heapFrame x) = false

structure DirectHeap (env : FaultEnv) (s : KernelMemory) : Prop where
  walk : WalkInv env.kimg s.ps s.tables
  pages : ∀ x, env.ownsVa x = true → HeapPresent env s x → HeapPage env s x

theorem HeapPage.kept {x : Ptr} (page : HeapPage env s x)
    (entry : presentEntry env.kimg t.ps t.tables x = presentEntry env.kimg s.ps s.tables x)
    (access : ∀ a, effectiveAccess env.kimg s.paging x = some a →
      ∃ b, effectiveAccess env.kimg t.paging x = some b ∧ (a.writable = true → b.writable = true))
    (used : t.falloc.available (env.heapFrame x) = false) : HeapPage env t x := by
  rcases page.direct with ⟨pte, here, frame⟩
  rcases page.writable with ⟨a, allowed, writable⟩
  rcases access a allowed with ⟨b, still, upward⟩
  exact ⟨⟨pte, entry.trans here, frame⟩, ⟨b, still, upward writable⟩, used⟩

/-- The page of the fault is a page of the heap now, and the others are as before. -/
theorem DirectHeap.fault {cr2 : Ptr} (inv : DirectHeap env s) (mapped : HeapMapped env cr2 s t) :
    DirectHeap env t ∧ ∀ x, HeapPresent env t x ↔ HeapPresent env s x ∨ SamePage x cr2 := by
  refine ⟨⟨mapped.walk, fun x owned present => ?_⟩, fun x => ?_⟩
  · have frame := mapped.frames ⟨env.heapFrame x, env.heapFrame_aligned x⟩
    by_cases same : SamePage x cr2
    · have entry := mapped.entry x
      rw [if_pos same] at entry
      have here : env.heapFrame x = env.heapFrame cr2 := FaultEnv.heapFrame_eq_iff.mpr same
      refine ⟨⟨_, entry, ?_⟩, ⟨_, mapped.access x same, rfl⟩, ?_⟩
      · rw [pteFramePaddr_pageEntry (env.heapFrame_aligned cr2), here]
      · rw [frame]
        simp [here]
    · have entry := mapped.entry x
      rw [if_neg same] at entry
      have page := inv.pages x owned (by
        unfold HeapPresent at present ⊢
        rwa [entry] at present)
      apply page.kept entry (mapped.others x same)
      rw [frame, page.taken]
      rfl
  · unfold HeapPresent
    rw [mapped.entry]
    by_cases same : SamePage x cr2
    · simp [same]
    · simp [same]

theorem DirectHeap.map {call : MapCall} (inv : DirectHeap env s)
    (step : MapStep env.kimg s.paging call t.paging) (elsewhere : env.ownsVa call.vaddr = false)
    (falloc : t.falloc = s.falloc) : DirectHeap env t ∧
      ∀ x, env.ownsVa x = true → (HeapPresent env t x ↔ HeapPresent env s x) := by
  have arch : mmMapPageArch env.kimg call.mem call.vaddr call.paddr call.flags s.ps s.tables =
      (call.st, t.ps, t.tables) := step.arch
  have keeps (x : Ptr) (owned : env.ownsVa x = true) :=
    @mmMapPageArch_keeps env s t inv.walk _ step.fresh _ _ _ _ arch x fun both => by
      rw [FaultEnv.ownsVa_samePage both.2, elsewhere] at owned
      cases owned
  refine ⟨⟨(mmMapPageArch_entries inv.walk step.fresh arch).1, fun x owned present => ?_⟩,
    fun x owned => ?_⟩
  · rcases keeps x owned with ⟨entry, access⟩
    unfold HeapPresent at present
    rw [entry] at present
    have page := inv.pages x owned present
    apply page.kept entry access
    rw [falloc, page.taken]
  · unfold HeapPresent
    rw [(keeps x owned).1]

theorem DirectHeap.step {event : KernelEvent} (inv : DirectHeap env s)
    (step : KernelStep env s event t) : DirectHeap env t ∧
      ∀ x, env.ownsVa x = true → (HeapPresent env t x ↔ HeapPresent env s x ∨ event.Maps env x) := by
  cases event with
  | fault mem cr2 frame after =>
    rcases pagefaultIsr_ok inv.walk step.1 step.2 with ⟨unwanted, rfl⟩ | ⟨wanted, -, mapped⟩
    · refine ⟨inv, fun x _ => ?_⟩
      simp [KernelEvent.Maps, unwanted]
    · rcases inv.fault mapped with ⟨kept, present⟩
      refine ⟨kept, fun x _ => ?_⟩
      rw [present]
      simp [KernelEvent.Maps, wanted]
  | falloc call =>
    rcases t with ⟨ps, tables, falloc, memory⟩
    rcases step with ⟨⟨done, safe, apart⟩, same⟩
    cases same
    refine ⟨⟨inv.walk, fun x owned present => ?_⟩, fun x _ => ?_⟩
    · have page := inv.pages x owned present
      refine page.kept rfl (fun a allowed => ⟨a, allowed, id⟩) ?_
      have still := perform_keeps (f := ⟨env.heapFrame x, env.heapFrame_aligned x⟩) done safe
        (fun gives => apart x _ owned gives rfl) (by simp [page.taken])
      simpa using still
    · simp [KernelEvent.Maps, HeapPresent]
  | map call =>
    rcases step with ⟨⟨mapped, elsewhere⟩, same⟩
    rcases inv.map mapped elsewhere (by rw [same]) with ⟨kept, present⟩
    refine ⟨kept, fun x owned => ?_⟩
    rw [present x owned]
    simp [KernelEvent.Maps]
  | store frames =>
    cases step
    refine ⟨⟨inv.walk, fun x owned present => ?_⟩, fun x _ => ?_⟩
    · have page := inv.pages x owned present
      exact page.kept rfl (fun a allowed => ⟨a, allowed, id⟩) page.taken
    · simp [KernelEvent.Maps, HeapPresent]

theorem HeapPage.va2pa {x : Ptr} (page : HeapPage env s x) :
    s.paging.va2pa env.kimg x = mmKva2pa env.kimg x := by
  rcases page.direct with ⟨pte, here, frame⟩
  have entry := (presentEntry_some.mp here).1
  unfold PagingState.va2pa KernelMemory.paging
  rw [mmVa2pa_frameAt, frameAt_pteAt, entry, Option.map_some, frame]
  unfold FaultEnv.heapFrame mmKva2pa
  have split : x = pageBase x + BitVec.ofNat 32 (x.toNat % pageSize) := by
    have bound := x.isLt
    apply BitVec.eq_of_toNat_eq
    rw [BitVec.toNat_add, pageBase_toNat, BitVec.toNat_ofNat]
    unfold pageSize
    omega
  dsimp only
  bv_omega

end Space

end Dxgmx
