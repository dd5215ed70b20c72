import Dxgmx.Mem.PagingTranslation

open Library

namespace Dxgmx

/-- `ffree_one` makes the frame it is given available, and no other. -/
def FreesOnly (free : Ptr → Falloc → Exec Falloc) : Prop :=
  ∀ f s, PageAligned f → ∃ t, free f s = .ok t ∧
    ∀ g, PageAligned g → t.available g = (s.available g || decide (g = f))

theorem paddrOf_zero : paddrOf 0 = 0 := by decide

structure UserPageState where
  ps : PagingStruct
  tables : Tables
  falloc : Falloc

/-- A successful call of `mm_new_user_page` with the frame it took. -/
structure UserPageCall where
  mem : MapMem
  track : Bool
  vaddr : Ptr
  flags : BitVec 16
  frame : Ptr

structure UserPageStep (kimg : KernelImage) (free : Ptr → Falloc → Exec Falloc)
    (s : UserPageState) (call : UserPageCall) (t : UserPageState) : Prop where
  frame : call.frame = (fallocOneUser s.falloc).1
  done : mmNewUserPage kimg free call.mem call.track call.vaddr call.flags s.ps s.tables s.falloc =
    .ok (0, t.ps, t.tables, t.falloc)

/-- What the teardown of a process should do to the frames. -/
def TornDown (kimg : KernelImage) (free : Ptr → Falloc → Exec Falloc) (s : UserPageState)
    (frames : List Ptr) : Prop :=
  ∃ tables falloc, mmDestroyPagingStruct kimg free s.ps s.tables s.falloc = .ok (tables, falloc) ∧
    ∀ g, PageAligned g → falloc.available g = (s.falloc.available g || decide (g ∈ frames))

section

variable {kimg : KernelImage} {free : Ptr → Falloc → Exec Falloc} {mem : MapMem} {track : Bool}
  {vaddr paddr : Ptr} {flags : BitVec 16} {ps ps' : PagingStruct} {tables tables' : Tables}
  {falloc falloc' : Falloc} {st : Int}

theorem mmMapPageArch_status
    (call : mmMapPageArch kimg mem vaddr paddr flags ps tables = (st, ps', tables')) :
    st = 0 ∨ st = -12 := by
  cases mmMapPageArch_returns call with
  | noPd => exact .inr rfl
  | noPt => exact .inr rfl
  | done => exact .inl rfl

/-- The three ways that `mm_new_user_page` returns. -/
theorem mmNewUserPage_returns
    (call : mmNewUserPage kimg free mem track vaddr flags ps tables falloc =
      .ok (st, ps', tables', falloc')) :
    PageAligned vaddr ∧
    (((fallocOneUser falloc).1 = 0 ∧ st = -12 ∧ ps' = ps ∧ tables' = tables) ∨
    ((fallocOneUser falloc).1 ≠ 0 ∧ st = -12 ∧
      mmMapPageArch kimg mem vaddr (fallocOneUser falloc).1 (flags ||| pageUser) ps tables =
        (-12, ps', tables')) ∨
    ((fallocOneUser falloc).1 ≠ 0 ∧ st = 0 ∧ falloc' = (fallocOneUser falloc).2 ∧ ∃ ps1 pages,
      mmMapPageArch kimg mem vaddr (fallocOneUser falloc).1 (flags ||| pageUser) ps tables =
        (0, ps1, tables') ∧
      pagingstructTrackPage vaddr ps1.allocatedPages = .ok pages ∧
      ps' = { ps1 with allocatedPages := pages })) := by
  rcases assert_bind_ok.mp call with ⟨aligned, rest⟩
  refine ⟨aligned, ?_⟩
  dsimp only at rest
  split at rest
  · rename_i zero
    cases rest
    exact .inl ⟨zero, rfl, rfl, rfl⟩
  · rename_i frame
    rcases mapped : mmMapPageArch kimg mem vaddr (fallocOneUser falloc).1 (flags ||| pageUser) ps
      tables with ⟨st1, ps1, tables1⟩
    rw [mapped] at rest
    dsimp only at rest
    rcases mmMapPageArch_status mapped with rfl | rfl
    · rw [if_neg (by decide)] at rest
      rcases assert_bind_ok.mp rest with ⟨-, rest⟩
      rcases Exec.bind_ok.mp rest with ⟨pages, tracked, done⟩
      cases done
      exact .inr (.inr ⟨frame, rfl, rfl, ps1, pages, rfl, tracked, rfl⟩)
    · rw [if_pos (by decide)] at rest
      rcases Exec.bind_ok.mp rest with ⟨freed, -, done⟩
      cases done
      exact .inr (.inl ⟨frame, rfl, rfl⟩)

end

section

variable {kimg : KernelImage} {free : Ptr → Falloc → Exec Falloc} {s t : UserPageState}

theorem UserPageStep.falloc {call : UserPageCall} (step : UserPageStep kimg free s call t) :
    call.frame ≠ 0 ∧ PageAligned call.frame ∧ ∀ g, PageAligned g →
      t.falloc.available g = (s.falloc.available g && !decide (g = call.frame)) := by
  have frame := step.frame
  obtain ⟨ret, falloc, took⟩ : ∃ ret falloc, fallocOneUser s.falloc = (ret, falloc) := ⟨_, _, rfl⟩
  rcases (mmNewUserPage_returns step.done).2 with ⟨-, error, -⟩ | ⟨-, error, -⟩ | ⟨some_, -, kept, -⟩
  · exact absurd error (by decide)
  · exact absurd error (by decide)
  · rw [took] at some_ kept frame
    dsimp only at some_ kept frame
    rcases fallocOneUser_cases took with ⟨zero, -⟩ | ⟨-, aligned, -, marked⟩
    · exact absurd zero some_
    · rw [frame]
      refine ⟨some_, aligned, fun g page => ?_⟩
      rw [kept, marked]
      congr 2
      apply decide_eq_decide.mpr
      constructor
      · exact fun same => frame_ext page aligned same.1 same.2
      · rintro rfl
        exact ⟨rfl, rfl⟩

/-- The frame number is cleared before the frame is freed. -/
theorem destroyPages_available (lawful : FreesOnly free) {pdpt : PageDirectoryPointerTable}
    {pages : List Ptr} {tables tables' : Tables} {falloc falloc' : Falloc}
    (call : destroyPages kimg free pdpt pages tables falloc = .ok (tables', falloc')) (g : Ptr)
    (page : PageAligned g) (available : falloc'.available g = true) :
    falloc.available g = true ∨ g = 0 := by
  induction pages generalizing tables falloc with
  | nil =>
    cases call
    exact .inl available
  | cons vaddr rest ih =>
    unfold destroyPages at call
    split at call
    · cases call
    · obtain ⟨freed, done, call⟩ := Exec.bind_ok.mp call
      obtain ⟨result, same, opened⟩ := lawful 0 falloc (by decide)
      change free (paddrOf 0) falloc = .ok freed at done
      rw [paddrOf_zero, same] at done
      cases done
      rcases ih call with before | zero
      · rw [opened g page, Bool.or_eq_true, decide_eq_true_iff] at before
        exact before
      · exact .inr zero

theorem userPages_used {start : UserPageState} {trace : List UserPageCall}
    (run : Run (UserPageStep kimg free) start trace s) :
    ∀ call ∈ trace, call.frame ≠ 0 ∧ PageAligned call.frame ∧
      s.falloc.available call.frame = false := by
  refine run.history (fun trace s => ∀ call ∈ trace, call.frame ≠ 0 ∧ PageAligned call.frame ∧
    s.falloc.available call.frame = false) (fun trace s call t before step other member => ?_) nofun
  obtain ⟨some_, aligned, marked⟩ := step.falloc
  rcases List.mem_append.mp member with member | member
  · obtain ⟨nonzero, page, used⟩ := before other member
    refine ⟨nonzero, page, ?_⟩
    rw [marked _ page, used]
    rfl
  · rw [List.mem_singleton.mp member]
    refine ⟨some_, aligned, ?_⟩
    rw [marked _ aligned, decide_eq_true rfl]
    exact Bool.and_false _

theorem mmDestroyPagingStruct_frees_iff (lawful : FreesOnly free) {tables : Tables}
    {falloc : Falloc} {ps : PagingStruct} (empty : ps.allocatedPages = [])
    {trace : List UserPageCall}
    (run : Run (UserPageStep kimg free) ⟨ps, tables, falloc⟩ trace s) :
    TornDown kimg free s (trace.map UserPageCall.frame) ↔ trace = [] := by
  constructor
  · rintro ⟨tables', falloc', call, exactly⟩
    by_contra some_
    obtain ⟨first, member⟩ := List.exists_mem_of_ne_nil trace some_
    obtain ⟨nonzero, page, used⟩ := userPages_used run first member
    unfold mmDestroyPagingStruct at call
    obtain ⟨⟨tables1, falloc1⟩, cleared, call⟩ := Exec.bind_ok.mp call
    obtain ⟨tables2, -, call⟩ := Exec.bind_ok.mp call
    obtain ⟨tables3, -, call⟩ := Exec.bind_ok.mp call
    cases call
    have freed : falloc'.available first.frame = true := by
      rw [exactly _ page, decide_eq_true (List.mem_map_of_mem member)]
      exact Bool.or_true _
    rcases destroyPages_available lawful cleared _ page freed with before | zero
    · rw [used] at before
      cases before
    · exact nonzero zero
  · rintro rfl
    rw [run.of_nil]
    refine ⟨tables, falloc, ?_, fun g _ => by simp⟩
    unfold mmDestroyPagingStruct
    dsimp only
    rw [empty]
    rfl

end

/-- A free that clears the bit of its frame alone. -/
def freeOnly (base : Ptr) (s : Falloc) : Exec Falloc :=
  .ok { s with
    pgframePool := Function.update s.pgframePool (frameWord base)
      (s.pgframePool (frameWord base) &&& ~~~(1#64 <<< frameBit base)) }

theorem freeOnly_freesOnly : FreesOnly freeOnly := by
  intro f s aligned
  refine ⟨_, rfl, fun g page => ?_⟩
  have bound := frameBit_lt g
  unfold Falloc.available
  dsimp only
  by_cases word : frameWord g = frameWord f
  · rw [word, Function.update_self, BitVec.getLsbD_and, BitVec.getLsbD_not, BitVec.getLsbD_shiftLeft,
      BitVec.getLsbD_one]
    by_cases bit : frameBit g = frameBit f
    · rw [decide_eq_true (frame_ext page aligned word bit), bit]
      simp
    · have different : g ≠ f := by
        rintro rfl
        exact bit rfl
      rw [decide_eq_false different]
      have apart : frameBit g < frameBit f ∨ frameBit g - frameBit f ≠ 0 := by omega
      rcases apart with low | high
      · simp [bound, low]
      · simp [bound, high]
  · have different : g ≠ f := by
      rintro rfl
      exact word rfl
    rw [Function.update_of_ne word, decide_eq_false different, Bool.or_false]

/-- A process without pages in a machine whose frames are all available. -/
def noUserPage : UserPageState :=
  ⟨mmInitPagingStruct, ⟨fun _ => pdInit, fun _ => ptInit, []⟩, Falloc.boot⟩

def firstUserPage : UserPageCall :=
  ⟨⟨some 0xe0001000, some 0xe0002000⟩, true, 0x1000, pageW, 0xfffff000⟩

/-- Mapping the first page and tearing the address space down. -/
def firstUserPageReplay : Exec (Int × Bool) := do
  let (st, ps, tables, falloc) ← mmNewUserPage ⟨0xc0000000⟩ freeOnly firstUserPage.mem true
    0x1000 pageW noUserPage.ps noUserPage.tables noUserPage.falloc
  let (_, falloc) ← mmDestroyPagingStruct ⟨0xc0000000⟩ freeOnly ps tables falloc
  pure (st, falloc.available 0xfffff000)

theorem firstUserPage_torn :
    ∃ s, UserPageStep ⟨0xc0000000⟩ freeOnly noUserPage firstUserPage s ∧
      ∃ tables falloc, mmDestroyPagingStruct ⟨0xc0000000⟩ freeOnly s.ps s.tables s.falloc =
        .ok (tables, falloc) ∧ falloc.available 0xfffff000 = false := by
  have replay : firstUserPageReplay = .ok (0, false) := by decide
  obtain ⟨⟨st, ps, tables, falloc⟩, mapped, replay⟩ := Exec.bind_ok.mp replay
  obtain ⟨⟨tables', falloc'⟩, torn, replay⟩ := Exec.bind_ok.mp replay
  rw [Exec.pure_ok, Prod.mk.injEq] at replay
  obtain ⟨rfl, used⟩ := replay
  exact ⟨⟨ps, tables, falloc⟩, ⟨by decide, mapped⟩, tables', falloc', torn, used⟩

theorem mmDestroyPagingStruct_frees_nothing :
    ∃ s, Run (UserPageStep ⟨0xc0000000⟩ freeOnly) noUserPage [firstUserPage] s ∧
      ¬ TornDown ⟨0xc0000000⟩ freeOnly s [0xfffff000] := by
  obtain ⟨s, step, -⟩ := firstUserPage_torn
  refine ⟨s, Run.single step, fun torn => ?_⟩
  have none := (mmDestroyPagingStruct_frees_iff freeOnly_freesOnly rfl (Run.single step)).mp torn
  cases none

theorem mmDestroyPagingStruct_leaks :
    ∃ s, Run (UserPageStep ⟨0xc0000000⟩ freeOnly) noUserPage [firstUserPage] s ∧
      ∃ tables falloc, mmDestroyPagingStruct ⟨0xc0000000⟩ freeOnly s.ps s.tables s.falloc =
        .ok (tables, falloc) ∧
      ¬ ∀ g, PageAligned g →
        falloc.available g = (s.falloc.available g || decide (g ∈ [firstUserPage.frame])) := by
  obtain ⟨s, step, tables, falloc, torn, used⟩ := firstUserPage_torn
  refine ⟨s, Run.single step, tables, falloc, torn, fun exactly => ?_⟩
  have freed := exactly 0xfffff000 (by decide)
  rw [used] at freed
  exact absurd freed.symm (by simp [firstUserPage])

end Dxgmx
