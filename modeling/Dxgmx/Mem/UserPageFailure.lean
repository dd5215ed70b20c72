import Dxgmx.Mem.FallocInit
import Dxgmx.Mem.PagingTables
import Dxgmx.Mem.UserPages

open Library

namespace Dxgmx

section

variable {kimg : KernelImage} {mem : MapMem} {track : Bool} {vaddr : Ptr} {flags : BitVec 16}
  {ps ps' : PagingStruct} {tables tables' : Tables} {falloc falloc' : Falloc}

/-- The tables of a page are there, or there is memory for them. -/
def TablesAvailable (kimg : KernelImage) (mem : MapMem) (ps : PagingStruct) (tables : Tables)
    (vaddr : Ptr) : Prop :=
  ((pdAt kimg ps (pdpteIdx vaddr)).isSome ∨ mem.pd.isSome) ∧
    ((ptAt kimg ps tables (pdpteIdx vaddr) (pdeIdx vaddr)).isSome ∨ mem.pt.isSome)

instance decidableTablesAvailable (kimg : KernelImage) (mem : MapMem) (ps : PagingStruct)
    (tables : Tables) (vaddr : Ptr) : Decidable (TablesAvailable kimg mem ps tables vaddr) :=
  inferInstanceAs (Decidable (_ ∧ _))

/-- One of the allocations of a call is not granted. -/
def AllocationFails (kimg : KernelImage) (mem : MapMem) (track : Bool) (vaddr : Ptr)
    (ps : PagingStruct) (tables : Tables) (falloc : Falloc) : Prop :=
  (fallocOneUser falloc).1 = 0 ∨ ¬TablesAvailable kimg mem ps tables vaddr ∨ track = false

/-- The frames that are available, the translations and the tracked pages are as they were. -/
structure SameSpace (kimg : KernelImage) (ps : PagingStruct) (tables : Tables) (falloc : Falloc)
    (ps' : PagingStruct) (tables' : Tables) (falloc' : Falloc) : Prop where
  frames : ∀ g : Frame, falloc'.available g.val = falloc.available g.val
  translations : ∀ x, mmVa2pa kimg ps'.data tables' x = mmVa2pa kimg ps.data tables x
  tracked : ps'.allocatedPages = ps.allocatedPages

/-- A frame that was taken and given back leaves the others if and only if nothing is in use in the
    high half of its word. -/
theorem fallocOneUser_freed_iff {frame : Ptr} (took : fallocOneUser falloc = (frame, falloc'))
    (some_ : frame ≠ 0) :
    (∀ g : Frame, (falloc'.freed frame).available g.val = falloc.available g.val) ↔
      HighHalfAvailable falloc frame := by
  rcases fallocOneUser_cases took with ⟨zero, -⟩ | ⟨-, aligned, free, taken⟩
  · exact absurd zero some_
  · constructor
    · intro same low bit high
      have back := same ⟨frameBase (frameWord frame) bit, frameBase_aligned _ _⟩
      have clears : Clears frame (frameBase (frameWord frame) bit) :=
        ⟨frameWord_frameBase _ _, .inr ⟨low, by rwa [frameBit_frameBase]⟩⟩
      rw [freed_available aligned, decide_eq_true clears, Bool.or_true] at back
      exact back.symm
    · intro high g
      rw [freed_available aligned, taken]
      by_cases clears : Clears frame g.val
      · rw [decide_eq_true clears, Bool.or_true]
        rcases clears with ⟨word, bit | ⟨low, above⟩⟩
        · rw [frame_ext g.property aligned word bit, free]
        · have there := high low ⟨frameBit g.val, frameBit_lt g.val⟩ above
          rw [frameBase_frame g.property word] at there
          rw [there]
      · have other : ¬(frameWord g.val = frameWord frame ∧ frameBit g.val = frameBit frame) :=
          fun same => clears ⟨same.1, .inl same.2⟩
        rw [decide_eq_false clears, decide_eq_false other, Bool.or_false, Bool.not_false, Bool.and_true]

theorem mmNewUserPage_outcomes (walk : WalkInv kimg ps tables) (fresh : mem.Fresh kimg tables)
    (aligned : PageAligned vaddr) :
    ((fallocOneUser falloc).1 = 0 ∧ mmNewUserPage kimg ffreeOne mem track vaddr flags ps tables falloc =
      .ok (-12, ps, tables, (fallocOneUser falloc).2)) ∨
    ((fallocOneUser falloc).1 ≠ 0 ∧ ¬TablesAvailable kimg mem ps tables vaddr ∧ ∃ ps' tables',
      mmNewUserPage kimg ffreeOne mem track vaddr flags ps tables falloc =
        .ok (-12, ps', tables', (fallocOneUser falloc).2.freed (fallocOneUser falloc).1) ∧
      ps'.allocatedPages = ps.allocatedPages ∧
      ∀ i j k, pteAt kimg ps' tables' i j k = pteAt kimg ps tables i j k) ∨
    ((fallocOneUser falloc).1 ≠ 0 ∧ TablesAvailable kimg mem ps tables vaddr ∧ (track = false →
      mmNewUserPage kimg ffreeOne mem track vaddr flags ps tables falloc = .error .panic)) := by
  rcases took : fallocOneUser falloc with ⟨frame, falloc1⟩
  have page : vaddr.toNat % pageSize = 0 := aligned
  by_cases zero : frame = 0
  · refine .inl ⟨zero, ?_⟩
    unfold mmNewUserPage
    simp only [assert, if_pos page, Exec.ok_bind, took, if_pos zero]
    rfl
  · have frameAligned : PageAligned frame := by
      rcases fallocOneUser_cases took with ⟨none_, -⟩ | ⟨-, aligned, -⟩
      · exact absurd none_ zero
      · exact aligned
    rcases mapped : mmMapPageArch kimg mem vaddr frame (flags ||| pageUser) ps tables with
      ⟨st, ps', tables'⟩
    have done := mmMapPageArch_done_iff walk fresh mapped
    right
    rcases (mmMapPageArch_entries walk fresh mapped).2 with ⟨rfl, same⟩ | ⟨rfl, -⟩
    · refine .inl ⟨zero, fun there => absurd (done.mpr there) (by decide), ps', tables', ?_,
        mmMapPageArch_pages mapped, same⟩
      unfold mmNewUserPage
      simp only [assert, if_pos page, Exec.ok_bind, took, if_neg zero, mapped,
        if_pos (show (-12 : Int) < 0 by decide), ffreeOne_aligned frameAligned]
      rfl
    · refine .inr ⟨zero, done.mp rfl, fun untracked => ?_⟩
      unfold mmNewUserPage
      simp only [assert, if_pos page, Exec.ok_bind, took, if_neg zero, mapped,
        if_neg (show ¬(0 : Int) < 0 by decide), untracked, Bool.false_eq_true, if_false]
      rfl

/-- A failing call returns an error and leaves everything as it was if and only if it does not fail to
    track a page that it has mapped, and a frame that it gives back is alone in use in the high half of
    its word. -/
theorem mmNewUserPage_undone_iff (walk : WalkInv kimg ps tables) (fresh : mem.Fresh kimg tables)
    (aligned : PageAligned vaddr) :
    (AllocationFails kimg mem track vaddr ps tables falloc → ∃ st ps' tables' falloc',
      mmNewUserPage kimg ffreeOne mem track vaddr flags ps tables falloc =
        .ok (st, ps', tables', falloc') ∧ st < 0 ∧
      SameSpace kimg ps tables falloc ps' tables' falloc') ↔
    ((fallocOneUser falloc).1 ≠ 0 → if TablesAvailable kimg mem ps tables vaddr then track = true
      else HighHalfAvailable falloc (fallocOneUser falloc).1) := by
  have took : fallocOneUser falloc = ((fallocOneUser falloc).1, (fallocOneUser falloc).2) := rfl
  rcases @mmNewUserPage_outcomes kimg mem track vaddr flags ps tables falloc walk fresh aligned with
    ⟨zero, call⟩ | ⟨some_, missing, ps', tables', call, tracked, same⟩ | ⟨some_, there, panics⟩
  · refine iff_of_true (fun _ => ⟨_, _, _, _, call, by decide, fun g => ?_, fun _ => rfl, rfl⟩)
      (absurd zero)
    rcases fallocOneUser_cases took with ⟨-, pool⟩ | ⟨taken, -⟩
    · unfold Falloc.available
      rw [pool]
    · exact absurd zero taken
  · rw [if_neg missing, ← fallocOneUser_freed_iff took some_]
    constructor
    · intro undone _
      rcases undone (.inr (.inl missing)) with ⟨st, ps1, tables1, falloc1, again, -, space⟩
      cases call.symm.trans again
      exact space.frames
    · intro frames _
      refine ⟨_, _, _, _, call, by decide, frames some_, fun x => ?_, tracked⟩
      rw [mmVa2pa_frameAt, mmVa2pa_frameAt, frameAt_pteAt, frameAt_pteAt, same]
  · rw [if_pos there]
    constructor
    · intro undone _
      by_contra untracked
      rw [Bool.not_eq_true] at untracked
      rcases undone (.inr (.inr untracked)) with ⟨st, ps1, tables1, falloc1, again, -⟩
      cases (panics untracked).symm.trans again
    · rintro track_ (zero | missing | untracked)
      · exact absurd zero some_
      · exact absurd there missing
      · cases (track_ some_).symm.trans untracked

end

def noTables : Tables := ⟨fun _ => pdInit, fun _ => ptInit, []⟩

/-- There is no memory for a page directory, and the highest frame is given back. -/
theorem mmNewUserPage_undone_iff_boot : ∃ st ps' tables' falloc',
    mmNewUserPage ⟨0xc0000000⟩ ffreeOne ⟨none, none⟩ true 0x1000 0 mmInitPagingStruct noTables
        Falloc.boot = .ok (st, ps', tables', falloc') ∧ st < 0 ∧
      SameSpace ⟨0xc0000000⟩ mmInitPagingStruct noTables Falloc.boot ps' tables' falloc' := by
  have missing : ¬TablesAvailable ⟨0xc0000000⟩ ⟨none, none⟩ mmInitPagingStruct noTables 0x1000 := by
    decide
  have fresh : MapMem.Fresh ⟨0xc0000000⟩ ⟨none, none⟩ noTables := ⟨nofun, nofun, nofun⟩
  refine (mmNewUserPage_undone_iff (walkInv_init _ _) fresh (by decide)).mpr
    (fun _ => ?_) (.inr (.inl missing))
  rw [if_neg missing, show (fallocOneUser Falloc.boot).1 = 0xfffff000 by decide]
  exact fun low => absurd low (by decide)

/-- Only the frame 0x45000 is available. -/
def oneFrameLeft : Falloc where
  pgframePool := fun i => if i.val = 1 then ~~~(BitVec.ofNat 64 1 <<< 5) else BitVec.allOnes 64
  pgframesCnt := 1
  pgframesUserCursor := ⟨1, by decide⟩
  pgframesUserSubcursor := ⟨63, by decide⟩

/-- The first user pages of a process, from 0x1000 up. -/
def userPages : Nat → Exec (PagingStruct × Tables × Falloc)
  | 0 => .ok (mmInitPagingStruct, noTables, Falloc.boot)
  | n + 1 => do
    let (ps, tables, falloc) ← userPages n
    let (_, ps, tables, falloc) ← mmNewUserPage ⟨0xc0000000⟩ ffreeOne
      ⟨some 0xe0001000, some 0xe0002000⟩ true (BitVec.ofNat 32 ((n + 1) * pageSize)) 0 ps tables falloc
    pure (ps, tables, falloc)

/-- The array of tracked pages has room for twenty, and without memory for more the kernel panics.
    Without memory for a page directory a frame is available afterwards that was not. -/
theorem mmNewUserPage_fails_badly :
    (∃ ps tables falloc, userPages 20 = .ok (ps, tables, falloc) ∧
      mmNewUserPage ⟨0xc0000000⟩ ffreeOne ⟨none, none⟩ false 0x15000 0 ps tables falloc =
        .error .panic) ∧
    ∃ falloc', mmNewUserPage ⟨0xc0000000⟩ ffreeOne ⟨none, none⟩ true 0x1000 0 mmInitPagingStruct
        noTables oneFrameLeft = .ok (-12, mmInitPagingStruct, noTables, falloc') ∧
      oneFrameLeft.available 0x7f000 = false ∧ falloc'.available 0x7f000 = true := by
  refine ⟨?_, _, rfl, by decide, by decide⟩
  have done : (userPages 20).map (fun _ => ()) = .ok () := by decide +kernel
  have panics : ((userPages 20).bind fun (ps, tables, falloc) => (mmNewUserPage ⟨0xc0000000⟩ ffreeOne
      ⟨none, none⟩ false 0x15000 0 ps tables falloc).map Prod.fst) = .error .panic := by
    decide +kernel
  rcases pages : userPages 20 with stop | ⟨ps, tables, falloc⟩
  · rw [pages] at done
    cases done
  · rw [pages] at panics
    refine ⟨ps, tables, falloc, rfl, ?_⟩
    dsimp only [Except.bind] at panics
    rcases call : mmNewUserPage ⟨0xc0000000⟩ ffreeOne ⟨none, none⟩ false 0x15000 0 ps tables falloc with
      stop | result
    · rw [call] at panics
      cases panics
      rfl
    · rw [call] at panics
      cases panics

end Dxgmx
