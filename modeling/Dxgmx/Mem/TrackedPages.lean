import Dxgmx.Library.InPlace
import Dxgmx.Mem.Krealloc
import Dxgmx.Mem.Paging

open Library

namespace Dxgmx

open AllocationCtx Allocation

section

variable {s : KmallocState} {x : LiveBlock} {h : Heap} {a : Allocation} {m : GAllocatorHeapMeta}
variable {p : AllocationCtx} {k : Nat}

theorem Allocation.Lives.size_le (layout : HeapLayout h m) (lives : Lives m a p k)
    (sized : h.pagespan.toNat < 2 ^ 20) : a.size ≤ 2 ^ 32 - pageSize := by
  have inside := lives.inHeap layout
  have range := lives.range
  have span : h.pagespan.toNat * pageSize ≤ (2 ^ 20 - 1) * pageSize :=
    Nat.mul_le_mul_right _ (by omega)
  have whole : (2 ^ 20 - 1) * pageSize = 2 ^ 32 - pageSize := by decide
  omega

/-- What `krealloc` gives lies in a heap, and a heap has fewer than 2 ^ 20 pages. -/
theorem krealloc_within_heap (reached : KmallocReached s) {addr : Option Nat}
    (live : ∀ a, addr = some a → ∃ x ∈ s.live, x.allocation.addr = a) {size given : Nat}
    {after : Kmalloc} (small : size < 2 ^ 32)
    (done : s.kernel.krealloc addr size = .ok (some given, after)) : size ≤ 2 ^ 32 - pageSize := by
  have inv := reached.inv
  have positive : 0 < size := by
    rcases Nat.eq_zero_or_pos size with rfl | positive
    · cases done
    · exact positive
  obtain ⟨h, active⟩ : ∃ h, s.kernel.active = some h := by
    unfold Kmalloc.krealloc at done
    rw [if_neg (Nat.ne_of_gt positive)] at done
    cases active : s.kernel.active with
    | none =>
      rw [active] at done
      cases done
    | some h => exact ⟨h, rfl⟩
  obtain ⟨id, there⟩ : ∃ id, s.kernel.heaps[id]? = some h := by
    obtain ⟨id, -, here⟩ := Option.bind_eq_some_iff.mp active
    exact ⟨id, here⟩
  have kept := inv.kept id h there
  have sized := (inv.sized h (List.mem_of_getElem? there)).2
  cases addr with
  | none =>
    obtain ⟨e, low, power⟩ := inv.alignment
    unfold Kmalloc.krealloc at done
    rw [if_neg (Nat.ne_of_gt positive), active] at done
    dsimp only at done
    rw [power] at done
    rcases Kmalloc.kmallocAlignedWithHeap_cases kept positive low with
      ⟨-, failed⟩ | ⟨_, _, _, _, -, allocates⟩
    · rw [failed] at done
      cases done
    · exact allocates.lives.size_le kept.layout sized
  | some a =>
    obtain ⟨x, member, rfl⟩ := live a rfl
    rcases inv.krealloc_cases member positive small active there with
      ⟨-, failed⟩ | ⟨inside, ⟨rfl, -⟩ | ⟨-, ⟨-, failed⟩ | ⟨-, ⟨-, failed⟩ |
        ⟨_, _, _, _, _, _, _, -, allocates, -⟩⟩⟩⟩
    · rw [failed] at done
      cases done
    · rcases (inv.inside_iff member there).mp inside with ⟨rfl, -⟩
      obtain ⟨_, _, lives⟩ := kept.lives _ (mem_liveIn.mpr member)
      exact lives.size_le kept.layout sized
    · rw [failed] at done
      cases done
    · rw [failed] at done
      cases done
    · exact allocates.lives.size_le kept.layout sized

end

/-- The array of the tracked pages. A page that nothing was stored in has no value. -/
structure PageTracker where
  allocatedPages : List (Option Ptr)
  allocatedPagesSize : BitVec 32
  allocatedPagesCapacity : BitVec 32
  deriving DecidableEq

namespace PageTracker

/-- `krealloc` of the array, that finds a place or not. No heap can give more, see
`krealloc_within_heap`. -/
def kreallocPages (place : Bool) (bytes : BitVec 32) (pages : List (Option Ptr)) :
    Option (List (Option Ptr)) :=
  if place = true ∧ bytes ≠ 0 ∧ bytes.toNat ≤ 2 ^ 32 - pageSize then
    some (pages.take (bytes.toNat / 4) ++ List.replicate (bytes.toNat / 4 - pages.length) none)
  else none

def pagingstructEnlargeAllocatedPages (place : Bool) (ps : PageTracker) :
    Exec (Int × PageTracker) :=
  let newcap := ps.allocatedPagesCapacity + 20
  match kreallocPages place (newcap * 4) ps.allocatedPages with
  | none => .ok (-12, ps)
  | some tmp => do
    let tmp ← putAll ps.allocatedPagesCapacity.toNat (List.replicate 20 (some 0)) tmp
    pure (0, { ps with allocatedPages := tmp, allocatedPagesCapacity := newcap })

def pagingstructInit (place : Bool) : Exec (Int × PageTracker) :=
  pagingstructEnlargeAllocatedPages place ⟨[], 0, 0⟩

/-- The first loop of `pagingstruct_track_page`, up to the first page behind the new one. -/
def trackIndex (page : Ptr) (pages : List (Option Ptr)) : (left idx : Nat) → Exec Nat
  | 0, idx => .ok idx
  | left + 1, idx => do
    let cell ← fetch pages idx
    match cell with
    | none => .error .fault
    | some vaddr =>
      if vaddr = page then .error .panic
      else if page < vaddr then pure idx
      else trackIndex page pages left (idx + 1)

/-- The rest of `pagingstruct_track_page`, once there is room. -/
def trackInRoom (page : Ptr) (ps : PageTracker) : Exec (Int × PageTracker) := do
  let idx ← trackIndex page ps.allocatedPages ps.allocatedPagesSize.toNat 0
  let pages ← openGap idx (ps.allocatedPagesSize.toNat - idx) ps.allocatedPages
  let pages ← put pages idx (some page)
  pure (0, { ps with
    allocatedPages := pages
    allocatedPagesSize := ps.allocatedPagesSize + 1 })

def pagingstructTrackPage (page : Ptr) (place : Bool) (ps : PageTracker) :
    Exec (Int × PageTracker) :=
  if ps.allocatedPagesSize = ps.allocatedPagesCapacity then do
    let (st, ps) ← ps.pagingstructEnlargeAllocatedPages place
    if st < 0 then pure (st, ps) else ps.trackInRoom page
  else ps.trackInRoom page

/-- The array holds these pages in front, and nothing is tracked twice. -/
structure Tracks (ps : PageTracker) (pages : List Ptr) : Prop where
  cells : ∃ rest, ps.allocatedPages = pages.map some ++ rest
  size : ps.allocatedPagesSize.toNat = pages.length
  capacity : ps.allocatedPagesCapacity.toNat = ps.allocatedPages.length
  bounded : ps.allocatedPages.length * 4 ≤ 2 ^ 32 - pageSize
  ascending : pages.Pairwise (· < ·)

variable {ps ps' : PageTracker} {pages below above : List Ptr} {page : Ptr} {place : Bool}

theorem Tracks.fits (tracks : ps.Tracks pages) : pages.length ≤ ps.allocatedPages.length := by
  obtain ⟨rest, cells⟩ := tracks.cells
  rw [cells, List.length_append, List.length_map]
  exact Nat.le_add_right _ _

/-- Growing keeps what is tracked and makes room, or nothing is changed. -/
theorem Tracks.enlarge (tracks : ps.Tracks pages) (place : Bool) :
    ps.pagingstructEnlargeAllocatedPages place = .ok (-12, ps) ∨
      ∃ ps', ps.pagingstructEnlargeAllocatedPages place = .ok (0, ps') ∧ ps'.Tracks pages ∧
        pages.length < ps'.allocatedPages.length := by
  have bounded := tracks.bounded
  have small : 2 ^ 32 - pageSize + 80 < 2 ^ 32 := by decide
  have newcap : (ps.allocatedPagesCapacity + 20).toNat = ps.allocatedPages.length + 20 := by
    rw [BitVec.toNat_add, tracks.capacity]
    exact Nat.mod_eq_of_lt (by simp; omega)
  have bytes : ((ps.allocatedPagesCapacity + 20) * 4).toNat = (ps.allocatedPages.length + 20) * 4 := by
    rw [BitVec.toNat_mul, newcap]
    exact Nat.mod_eq_of_lt (by simp; omega)
  unfold pagingstructEnlargeAllocatedPages kreallocPages
  dsimp only
  rw [bytes]
  by_cases granted : place = true ∧ (ps.allocatedPagesCapacity + 20) * 4 ≠ 0 ∧
      (ps.allocatedPages.length + 20) * 4 ≤ 2 ^ 32 - pageSize
  · right
    have zeroed := @putAll_append _ ps.allocatedPages (List.replicate 20 none)
      (List.replicate 20 (some 0)) (by simp) []
    rw [List.append_nil, List.append_nil] at zeroed
    rw [if_pos granted, Nat.mul_div_cancel _ (by decide), List.take_of_length_le (by omega),
      Nat.add_sub_cancel_left, tracks.capacity]
    dsimp only
    rw [zeroed, Exec.ok_bind]
    have fits := tracks.fits
    refine ⟨_, rfl, ⟨?_, tracks.size, ?_, ?_, tracks.ascending⟩, ?_⟩
    · obtain ⟨rest, cells⟩ := tracks.cells
      exact ⟨rest ++ List.replicate 20 (some 0), by rw [cells, List.append_assoc]⟩
    · rw [newcap, List.length_append, List.length_replicate]
    · rw [List.length_append, List.length_replicate]
      exact granted.2.2
    · rw [List.length_append, List.length_replicate]
      omega
  · left
    rw [if_neg granted]

/-- An ascending list falls into what comes before a page that is not in it and what comes after. -/
theorem ascending_split (ascending : pages.Pairwise (· < ·)) (fresh : page ∉ pages) :
    ∃ below above, pages = below ++ above ∧ (∀ vaddr ∈ below, vaddr < page) ∧
      ∀ vaddr ∈ above, page < vaddr := by
  induction pages with
  | nil => exact ⟨[], [], rfl, nofun, nofun⟩
  | cons vaddr rest ih =>
    obtain ⟨first, later⟩ := List.pairwise_cons.mp ascending
    have other : page ≠ vaddr := List.ne_of_not_mem_cons fresh
    by_cases before : page < vaddr
    · refine ⟨[], vaddr :: rest, rfl, nofun, fun other member => ?_⟩
      rcases List.mem_cons.mp member with rfl | member
      · exact before
      · exact BitVec.lt_trans before (first other member)
    · obtain ⟨below, above, rfl, lower, upper⟩ := ih later (List.not_mem_of_not_mem_cons fresh)
      refine ⟨vaddr :: below, above, rfl, List.forall_mem_cons.mpr ⟨?_, lower⟩, upper⟩
      exact BitVec.lt_of_le_ne (BitVec.not_lt.mp before) other.symm

theorem ascending_insert (ascending : (below ++ above).Pairwise (· < ·))
    (lower : ∀ vaddr ∈ below, vaddr < page) (upper : ∀ vaddr ∈ above, page < vaddr) :
    (below ++ page :: above).Pairwise (· < ·) := by
  obtain ⟨first, second, apart⟩ := List.pairwise_append.mp ascending
  refine List.pairwise_append.mpr ⟨first, List.pairwise_cons.mpr ⟨upper, second⟩,
    fun vaddr inside other member => ?_⟩
  rcases List.mem_cons.mp member with rfl | member
  · exact lower vaddr inside
  · exact apart vaddr inside other member

theorem trackIndex_split (lower : ∀ vaddr ∈ below, vaddr < page)
    (upper : ∀ vaddr ∈ above, page < vaddr) (before rest : List (Option Ptr)) :
    trackIndex page (before ++ ((below ++ above).map some ++ rest)) (below ++ above).length
      before.length = .ok (before.length + below.length) := by
  induction below generalizing before with
  | nil =>
    cases above with
    | nil => rfl
    | cons vaddr above =>
      have greater := upper vaddr List.mem_cons_self
      have other : vaddr ≠ page := (BitVec.ne_of_lt greater).symm
      rw [List.nil_append, List.length_cons, trackIndex, List.map_cons, List.cons_append,
        fetch_append, Exec.ok_bind]
      dsimp only
      rw [if_neg other, if_pos greater]
      rfl
  | cons vaddr below ih =>
    obtain ⟨less, lower⟩ := List.forall_mem_cons.mp lower
    have later := ih lower (before ++ [some vaddr])
    have place : (before ++ [some vaddr]).length = before.length + 1 := by simp
    rw [place, List.append_assoc, List.singleton_append] at later
    rw [List.cons_append, List.length_cons, trackIndex, List.map_cons, List.cons_append,
      fetch_append, Exec.ok_bind]
    dsimp only
    rw [if_neg (BitVec.ne_of_lt less), if_neg (BitVec.lt_asymm less), later, List.length_cons]
    congr 1
    omega

/-- The list the array stands for takes the page at the same place. -/
theorem pagingstructTrackPage_split (lower : ∀ vaddr ∈ below, vaddr < page)
    (upper : ∀ vaddr ∈ above, page < vaddr) :
    Dxgmx.pagingstructTrackPage page (below ++ above) = .ok (below ++ page :: above) := by
  induction below with
  | nil =>
    cases above with
    | nil => rfl
    | cons vaddr above =>
      have greater := upper vaddr List.mem_cons_self
      exact (if_neg (BitVec.ne_of_lt greater).symm).trans (if_pos greater)
  | cons vaddr below ih =>
    obtain ⟨less, lower⟩ := List.forall_mem_cons.mp lower
    rw [List.cons_append, Dxgmx.pagingstructTrackPage, if_neg (BitVec.ne_of_lt less),
      if_neg (BitVec.lt_asymm less), ih lower]
    rfl

theorem Tracks.track_in_room (tracks : ps.Tracks pages) (fresh : page ∉ pages)
    (room : pages.length < ps.allocatedPages.length) :
    ∃ ps' next, ps.trackInRoom page = .ok (0, ps') ∧
      Dxgmx.pagingstructTrackPage page pages = .ok next ∧ ps'.Tracks next ∧
      ∀ vaddr, vaddr ∈ next ↔ vaddr = page ∨ vaddr ∈ pages := by
  obtain ⟨below, above, rfl, lower, upper⟩ := ascending_split tracks.ascending fresh
  obtain ⟨rest, cells⟩ := tracks.cells
  obtain ⟨cell, rest, rfl⟩ : ∃ cell tail, rest = cell :: tail := by
    apply List.exists_cons_of_ne_nil
    rintro rfl
    rw [cells, List.append_nil, List.length_map] at room
    exact Nat.lt_irrefl _ room
  have index := trackIndex_split lower upper [] (cell :: rest)
  have gap := openGap_put (below.map some) (above.map some) rest cell (some page)
  rw [List.length_nil, Nat.zero_add, List.nil_append, ← cells] at index
  rw [List.length_map, List.length_map, ← List.append_assoc, ← List.map_append, ← cells] at gap
  have moved : (below ++ above).length - below.length = above.length := by
    rw [List.length_append, Nat.add_sub_cancel_left]
  obtain ⟨opened, opens, puts⟩ := Exec.bind_ok.mp gap
  have done : ps.trackInRoom page = .ok (0, { ps with
      allocatedPages := below.map some ++ some page :: (above.map some ++ rest)
      allocatedPagesSize := ps.allocatedPagesSize + 1 }) := by
    unfold trackInRoom
    rw [tracks.size, index, Exec.ok_bind, moved, opens, Exec.ok_bind, puts]
    rfl
  have bounded := tracks.bounded
  have small : 2 ^ 32 - pageSize < 2 ^ 32 := by decide
  refine ⟨_, below ++ page :: above, done, pagingstructTrackPage_split lower upper,
    ⟨⟨rest, by simp⟩, ?_, ?_, ?_, ascending_insert tracks.ascending lower upper⟩, fun vaddr => ?_⟩
  · rw [BitVec.toNat_add, tracks.size, Nat.mod_eq_of_lt (by simp at room ⊢; omega)]
    simp
    omega
  · rw [tracks.capacity, cells]
    simp
    omega
  · rw [cells] at bounded
    simp at bounded ⊢
    omega
  · simp only [List.mem_append, List.mem_cons]
    tauto

/-- A new page goes to its place, or the call fails and nothing is changed. -/
theorem Tracks.track (tracks : ps.Tracks pages) (fresh : page ∉ pages) (place : Bool) :
    ps.pagingstructTrackPage page place = .ok (-12, ps) ∨
      ∃ ps' next, ps.pagingstructTrackPage page place = .ok (0, ps') ∧
        Dxgmx.pagingstructTrackPage page pages = .ok next ∧ ps'.Tracks next ∧
        ∀ vaddr, vaddr ∈ next ↔ vaddr = page ∨ vaddr ∈ pages := by
  unfold pagingstructTrackPage
  by_cases full : ps.allocatedPagesSize = ps.allocatedPagesCapacity
  · rw [if_pos full]
    rcases tracks.enlarge place with failed | ⟨grown, done, larger, room⟩
    · left
      rw [failed]
      rfl
    · right
      rw [done]
      exact larger.track_in_room fresh room
  · right
    rw [if_neg full]
    refine tracks.track_in_room fresh (Nat.lt_of_le_of_ne tracks.fits fun same => full ?_)
    rw [← BitVec.toNat_inj, tracks.size, tracks.capacity, same]

theorem tracks_init (place : Bool) :
    ∃ st ps, pagingstructInit place = .ok (st, ps) ∧ ps.Tracks [] := by
  have empty : PageTracker.Tracks ⟨[], 0, 0⟩ [] :=
    ⟨⟨[], rfl⟩, rfl, rfl, Nat.zero_le _, .nil⟩
  rcases empty.enlarge place with failed | ⟨ps, done, tracks, -⟩
  · exact ⟨_, _, failed, empty⟩
  · exact ⟨_, _, done, tracks⟩

/-- A call with its page, whether `krealloc` finds a place, and what it returned. -/
structure TrackCall where
  page : Ptr
  place : Bool
  st : Int
  deriving DecidableEq

def TrackStep (ps : PageTracker) (call : TrackCall) (ps' : PageTracker) : Prop :=
  ps.pagingstructTrackPage call.page call.place = .ok (call.st, ps')

/-- What holds after these calls. -/
structure TracksCalls (trace : List TrackCall) (ps : PageTracker) (pages : List Ptr) : Prop where
  tracks : ps.Tracks pages
  succeeded : ∀ vaddr, vaddr ∈ pages ↔ ∃ call ∈ trace, call.page = vaddr ∧ call.st = 0

theorem TracksCalls.step {trace : List TrackCall} {call : TrackCall}
    (tracked : TracksCalls trace ps pages)
    (fresh : call.page ∉ trace.map TrackCall.page) (step : TrackStep ps call ps') :
    ∃ next, TracksCalls (trace ++ [call]) ps' next := by
  have outside : call.page ∉ pages := by
    intro member
    obtain ⟨earlier, inside, same, -⟩ := (tracked.succeeded _).mp member
    exact fresh (List.mem_map.mpr ⟨earlier, inside, same⟩)
  obtain ⟨page, place, st⟩ := call
  rcases tracked.tracks.track outside place with failed | ⟨_, next, done, -, tracks, members⟩
  · obtain ⟨rfl, rfl⟩ : st = -12 ∧ ps' = ps := by
      have same := step.symm.trans failed
      simpa using same
    refine ⟨pages, tracked.tracks, fun vaddr => ?_⟩
    rw [tracked.succeeded]
    simp
  · obtain ⟨rfl, rfl⟩ : st = 0 ∧ ps' = _ := by
      have same := step.symm.trans done
      simpa using same
    refine ⟨next, tracks, fun vaddr => ?_⟩
    rw [members, tracked.succeeded]
    simp [or_and_right, exists_or, or_comm, eq_comm]

theorem tracks_run {trace : List TrackCall} (tracks : ps.Tracks [])
    (run : Run TrackStep ps trace ps') (distinct : (trace.map TrackCall.page).Nodup) :
    ∃ pages, TracksCalls trace ps' pages := by
  induction run with
  | refl => exact ⟨[], tracks, by simp⟩
  | snoc run last ih =>
    rw [List.map_append] at distinct
    obtain ⟨before, -, apart⟩ := List.nodup_append.mp distinct
    obtain ⟨pages, tracked⟩ := ih before
    exact tracked.step (fun member => apart _ member _ (by simp) rfl) last

/-- After `pagingstruct_init` and any calls for distinct pages, whatever `krealloc` answers. A write
outside of the array would fault. -/
theorem tracked_pages_ascending (place : Bool) :
    ∃ st ps, pagingstructInit place = .ok (st, ps) ∧
      ∀ trace ps', Run TrackStep ps trace ps' → (trace.map TrackCall.page).Nodup →
        ∃ pages, ps'.Tracks pages ∧
          (∀ vaddr, vaddr ∈ pages ↔ ∃ call ∈ trace, call.page = vaddr ∧ call.st = 0) ∧
          ps'.allocatedPagesSize.toNat ≤ ps'.allocatedPagesCapacity.toNat ∧
          ∀ page place, page ∉ trace.map TrackCall.page →
            ∃ st left, ps'.pagingstructTrackPage page place = .ok (st, left) ∧
              (st = 0 ∨ st = -12 ∧ left = ps') := by
  obtain ⟨st, ps, init, empty⟩ := tracks_init place
  refine ⟨st, ps, init, fun trace ps' run distinct => ?_⟩
  obtain ⟨pages, tracks, succeeded⟩ := tracks_run empty run distinct
  refine ⟨pages, tracks, succeeded, ?_, fun page place fresh => ?_⟩
  · rw [tracks.size, tracks.capacity]
    exact tracks.fits
  · have outside : page ∉ pages := by
      intro member
      obtain ⟨earlier, inside, same, -⟩ := (succeeded page).mp member
      exact fresh (List.mem_map.mpr ⟨earlier, inside, same⟩)
    rcases tracks.track outside place with failed | ⟨left, next, done, -⟩
    · exact ⟨_, _, failed, .inr ⟨rfl, rfl⟩⟩
    · exact ⟨_, _, done, .inl rfl⟩

theorem tracked_pages_of_two :
    ∃ ps ps' pages, pagingstructInit true = .ok (0, ps) ∧
      Run TrackStep ps [⟨0x3000, true, 0⟩, ⟨0x1000, false, 0⟩] ps' ∧ ps'.Tracks pages ∧
      ∀ vaddr, vaddr ∈ pages ↔
        ∃ call ∈ [⟨0x3000, true, 0⟩, (⟨0x1000, false, 0⟩ : TrackCall)], call.page = vaddr ∧ call.st = 0 := by
  have ready : pagingstructInit true = .ok (0, ⟨List.replicate 20 (some 0), 0, 20⟩) := by decide
  obtain ⟨st, ps, init, all⟩ := tracked_pages_ascending true
  rw [ready] at init
  cases init
  have first : TrackStep ⟨List.replicate 20 (some 0), 0, 20⟩ ⟨0x3000, true, 0⟩
      ⟨some 0x3000 :: List.replicate 19 (some 0), 1, 20⟩ := by
    unfold TrackStep
    decide
  have second : TrackStep ⟨some 0x3000 :: List.replicate 19 (some 0), 1, 20⟩ ⟨0x1000, false, 0⟩
      ⟨some 0x1000 :: some 0x3000 :: List.replicate 18 (some 0), 2, 20⟩ := by
    unfold TrackStep
    decide
  have run := (Run.single first).snoc second
  obtain ⟨pages, tracks, members, -⟩ := all _ _ run (by decide)
  exact ⟨_, _, pages, ready, run, tracks, members⟩

end PageTracker

end Dxgmx
