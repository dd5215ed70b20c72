import Dxgmx.Mem.FallocLending

open Library

namespace Dxgmx

/-- The frames of `count` pages, the first of which starts at `place`. -/
def framesFrom : (count place : Nat) → List Ptr
  | 0, _ => []
  | count + 1, place => BitVec.ofNat 32 place :: framesFrom count (place + pageSize)

/-- The pages that start in the region, the last of which may be cut off. -/
def MemoryRegion.pageCount (r : MemoryRegion) : Nat := (r.size.toNat + (pageSize - 1)) / pageSize

def mapFrames (mregmap : List MemoryRegion) : List Ptr :=
  mregmap.flatMap fun r => framesFrom r.pageCount r.start.toNat

/-- The state after `ffree_one` of an aligned frame. -/
def Falloc.freed (s : Falloc) (f : Ptr) : Falloc :=
  { s with
    pgframePool :=
      Function.update s.pgframePool (frameWord f) (bwClear (s.pgframePool (frameWord f)) (frameBit f))
    pgframesCnt := s.pgframesCnt + 1 }

section

variable {s t : Falloc} {f g : Ptr} {frames : List Ptr} {mregmap : List MemoryRegion}

theorem ffreeOne_aligned (aligned : PageAligned f) : ffreeOne f s = .ok (s.freed f) :=
  assert_bind_ok.mpr ⟨aligned, rfl⟩

theorem freed_available (aligned : PageAligned f) (g : Ptr) :
    (s.freed f).available g = (s.available g || decide (Clears f g)) :=
  ffreeOne_available (ffreeOne_aligned aligned) g

theorem mem_framesFrom {count place : Nat} :
    f ∈ framesFrom count place ↔ ∃ i < count, f = BitVec.ofNat 32 (place + i * pageSize) := by
  induction count generalizing place with
  | zero => simp [framesFrom]
  | succ count ih =>
    rw [framesFrom, List.mem_cons, ih]
    constructor
    · rintro (rfl | ⟨i, inside, rfl⟩)
      · exact ⟨0, Nat.succ_pos _, by simp⟩
      · exact ⟨i + 1, Nat.succ_lt_succ inside, by rw [Nat.succ_mul]; congr 1; omega⟩
    · rintro ⟨_ | i, inside, rfl⟩
      · simp
      · exact .inr ⟨i, Nat.lt_of_succ_lt_succ inside, by rw [Nat.succ_mul]; congr 1; omega⟩

theorem framesFrom_length (count place : Nat) : (framesFrom count place).length = count := by
  induction count generalizing place with
  | zero => rfl
  | succ count ih => rw [framesFrom, List.length_cons, ih]

theorem ofNat_aligned {place : Nat} (aligned : place % pageSize = 0) :
    PageAligned (BitVec.ofNat 32 place) := by
  unfold PageAligned pageSize at *
  rw [BitVec.toNat_ofNat]
  omega

theorem framesFrom_aligned {count place : Nat} (aligned : place % pageSize = 0)
    (member : f ∈ framesFrom count place) : PageAligned f := by
  rcases mem_framesFrom.mp member with ⟨i, -, rfl⟩
  apply ofNat_aligned
  rw [Nat.add_mul_mod_self_right]
  exact aligned

theorem foldl_freed_available (aligned : ∀ f ∈ frames, PageAligned f) (g : Ptr) :
    (frames.foldl Falloc.freed s).available g = true ↔
      s.available g = true ∨ ∃ f ∈ frames, Clears f g := by
  induction frames generalizing s with
  | nil => simp
  | cons f frames ih =>
    rw [List.foldl_cons, ih fun f member => aligned f (List.mem_cons_of_mem _ member),
      freed_available (aligned f List.mem_cons_self)]
    simp [or_assoc]

theorem foldl_freed_count :
    (frames.foldl Falloc.freed s).pgframesCnt = s.pgframesCnt + BitVec.ofNat 32 frames.length := by
  induction frames generalizing s with
  | nil => simp
  | cons f frames ih =>
    rw [List.foldl_cons, ih, List.length_cons, BitVec.ofNat_add]
    show s.pgframesCnt + 1#32 + _ = _
    rw [BitVec.add_assoc, BitVec.add_comm 1#32]

theorem setWidth_ofNat_ptr (place : Nat) :
    (BitVec.ofNat 64 place).setWidth 32 = BitVec.ofNat 32 place :=
  BitVec.setWidth_ofNat_of_le (by decide) place

/-- The loop over a region that ends before the last page of the address space. -/
theorem pageframeAddAvailable_eq {stop place : Nat} (below : stop ≤ 2 ^ 64 - pageSize)
    (small : place < 2 ^ 64) (aligned : place % pageSize = 0) {count : Nat}
    (enough : stop ≤ place + count * pageSize) (few : ∀ i < count, place + i * pageSize < stop)
    (fuel : Nat) (s : Falloc) :
    pageframeAddAvailable (BitVec.ofNat 64 stop) fuel (BitVec.ofNat 64 place) s =
      if count < fuel then .ok ((framesFrom count place).foldl Falloc.freed s)
      else .error .fuel := by
  have stopBound : stop % 2 ^ 64 = stop := Nat.mod_eq_of_lt (by unfold pageSize at below; omega)
  induction count generalizing place fuel s with
  | zero =>
    cases fuel with
    | zero => rfl
    | succ fuel =>
      rw [pageframeAddAvailable, if_neg, if_pos (Nat.succ_pos _)]
      · rfl
      · rw [BitVec.lt_def, BitVec.toNat_ofNat, BitVec.toNat_ofNat, stopBound,
          Nat.mod_eq_of_lt small]
        omega
  | succ count ih =>
    cases fuel with
    | zero => rfl
    | succ fuel =>
      have first := few 0 (Nat.succ_pos _)
      rw [Nat.zero_mul, Nat.add_zero] at first
      have next : BitVec.ofNat 64 place + BitVec.ofNat 64 pageSize =
          BitVec.ofNat 64 (place + pageSize) := (BitVec.ofNat_add _ _).symm
      have rest := @ih (place + pageSize) (by unfold pageSize at *; omega)
        (by rw [Nat.add_mod_right]; exact aligned) (by rw [Nat.succ_mul] at enough; omega)
        (fun i inside => by have := few (i + 1) (by omega); rw [Nat.succ_mul] at this; omega)
        fuel (s.freed (BitVec.ofNat 32 place))
      rw [pageframeAddAvailable, if_pos, setWidth_ofNat_ptr, ffreeOne_aligned (ofNat_aligned aligned),
        Exec.ok_bind, next, rest]
      · simp only [framesFrom, List.foldl_cons, Nat.succ_lt_succ_iff]
      · rw [BitVec.lt_def, BitVec.toNat_ofNat, BitVec.toNat_ofNat, stopBound,
          Nat.mod_eq_of_lt small]
        exact first

/-- The loop over a region that reaches into the last page goes on with page 0. -/
theorem pageframeAddAvailable_endless {stop place : Nat} (bound : stop < 2 ^ 64)
    (above : 2 ^ 64 - pageSize < stop) (aligned : place % pageSize = 0) (fuel : Nat) (s : Falloc) :
    pageframeAddAvailable (BitVec.ofNat 64 stop) fuel (BitVec.ofNat 64 place) s = .error .fuel := by
  induction fuel generalizing place s with
  | zero => rfl
  | succ fuel ih =>
    have next : BitVec.ofNat 64 place + BitVec.ofNat 64 pageSize =
        BitVec.ofNat 64 (place + pageSize) := (BitVec.ofNat_add _ _).symm
    rw [pageframeAddAvailable, if_pos, setWidth_ofNat_ptr, ffreeOne_aligned (ofNat_aligned aligned),
      Exec.ok_bind, next]
    · exact ih (by rw [Nat.add_mod_right]; exact aligned) _
    · rw [BitVec.lt_def, BitVec.toNat_ofNat, BitVec.toNat_ofNat, Nat.mod_eq_of_lt bound]
      unfold pageSize at *
      omega

/-- Regions start on pages, and their ends do not wrap. -/
def PageRegions (mregmap : List MemoryRegion) : Prop :=
  ∀ r ∈ mregmap, r.start.toNat % pageSize = 0 ∧ r.finish < 2 ^ 64

theorem pageframeAddAvailable_region {r : MemoryRegion} (aligned : r.start.toNat % pageSize = 0)
    (bound : r.finish < 2 ^ 64) (fuel : Nat) (s : Falloc) :
    pageframeAddAvailable (r.start + r.size) fuel r.start s =
      if r.finish ≤ 2 ^ 64 - pageSize ∧ r.pageCount < fuel then
        .ok ((framesFrom r.pageCount r.start.toNat).foldl Falloc.freed s)
      else .error .fuel := by
  have stop : r.start + r.size = BitVec.ofNat 64 r.finish := by
    unfold MemoryRegion.finish
    rw [BitVec.ofNat_add, BitVec.ofNat_toNat, BitVec.ofNat_toNat, BitVec.setWidth_eq,
      BitVec.setWidth_eq]
  have start : BitVec.ofNat 64 r.start.toNat = r.start := by
    rw [BitVec.ofNat_toNat, BitVec.setWidth_eq]
  rw [stop, ← start]
  by_cases below : r.finish ≤ 2 ^ 64 - pageSize
  · have enough : r.finish ≤ r.start.toNat + r.pageCount * pageSize := by
      unfold MemoryRegion.finish MemoryRegion.pageCount pageSize
      omega
    have few : ∀ i < r.pageCount, r.start.toNat + i * pageSize < r.finish := by
      intro i inside
      unfold MemoryRegion.finish MemoryRegion.pageCount pageSize at *
      omega
    rw [pageframeAddAvailable_eq below r.start.isLt aligned enough few, start]
    simp only [below, true_and]
  · rw [pageframeAddAvailable_endless bound (Nat.lt_of_not_le below) aligned,
      if_neg fun both => below both.1]

theorem foldlM_regions (pages : PageRegions mregmap) {fuel : Nat} :
    mregmap.foldlM (fun s area => pageframeAddAvailable (area.start + area.size) fuel area.start s)
        s = .ok t ↔
      (∀ r ∈ mregmap, r.finish ≤ 2 ^ 64 - pageSize ∧ r.pageCount < fuel) ∧
        t = (mapFrames mregmap).foldl Falloc.freed s := by
  induction mregmap generalizing s with
  | nil =>
    rw [List.foldlM_nil, Exec.pure_ok]
    simp [mapFrames, eq_comm]
  | cons r mregmap ih =>
    have first := pages r List.mem_cons_self
    have tail := fun s => ih (s := s) fun q member => pages q (List.mem_cons_of_mem _ member)
    rw [List.foldlM_cons, Exec.bind_ok, List.forall_mem_cons]
    unfold mapFrames at *
    rw [List.flatMap_cons, List.foldl_append]
    constructor
    · rintro ⟨middle, call, rest⟩
      rw [pageframeAddAvailable_region first.1 first.2] at call
      split_ifs at call with ends
      cases call
      rcases (tail _).mp rest with ⟨others, same⟩
      exact ⟨⟨ends, others⟩, same⟩
    · rintro ⟨⟨ends, others⟩, same⟩
      refine ⟨_, ?_, (tail _).mpr ⟨others, same⟩⟩
      rw [pageframeAddAvailable_region first.1 first.2, if_pos ends]

/-- The state in which all frames are in use, and the frames of the map freed. -/
def Falloc.initial (mregmap : List MemoryRegion) : Falloc :=
  (mapFrames mregmap).foldl Falloc.freed { Falloc.boot with pgframePool := fun _ => BitVec.allOnes 64 }

theorem initial_count : (Falloc.initial mregmap).pgframesCnt =
    BitVec.ofNat 32 (mapFrames mregmap).length :=
  foldl_freed_count.trans (BitVec.zero_add _)

theorem fallocInit_ok_iff (pages : PageRegions mregmap) {fuel : Nat} :
    fallocInit fuel mregmap Falloc.boot = .ok t ↔
      (∀ r ∈ mregmap, r.finish ≤ 2 ^ 64 - pageSize ∧ r.pageCount < fuel) ∧
        t = Falloc.initial mregmap ∧ (mapFrames mregmap).length % 2 ^ 32 ≠ 0 := by
  have zero : (Falloc.initial mregmap).pgframesCnt = 0 ↔ (mapFrames mregmap).length % 2 ^ 32 = 0 := by
    rw [initial_count, BitVec.toNat_eq, BitVec.toNat_ofNat]
    rfl
  unfold fallocInit
  rw [Exec.bind_ok]
  constructor
  · rintro ⟨u, folded, checked⟩
    rcases (foldlM_regions pages).mp folded with ⟨ends, rfl⟩
    rcases assert_bind_ok.mp checked with ⟨nonzero, result⟩
    cases result
    exact ⟨ends, rfl, fun none => nonzero (zero.mpr none)⟩
  · rintro ⟨ends, rfl, some_⟩
    exact ⟨_, (foldlM_regions pages).mpr ⟨ends, rfl⟩,
      assert_bind_ok.mpr ⟨fun none => some_ (zero.mp none), rfl⟩⟩

theorem mapFrames_aligned (pages : PageRegions mregmap) (member : f ∈ mapFrames mregmap) :
    PageAligned f := by
  rcases List.mem_flatMap.mp member with ⟨r, inside, here⟩
  exact framesFrom_aligned (pages r inside).1 here

theorem initial_available (pages : PageRegions mregmap) (g : Ptr) :
    (Falloc.initial mregmap).available g = true ↔ ∃ f ∈ mapFrames mregmap, Clears f g := by
  unfold Falloc.initial
  rw [foldl_freed_available fun f => mapFrames_aligned pages, or_iff_right]
  have set : (BitVec.allOnes 64).getLsbD (frameBit g) = true := by
    rw [BitVec.getLsbD_allOnes]
    exact decide_eq_true (frameBit_lt g)
  show ¬(!(BitVec.allOnes 64).getLsbD (frameBit g)) = true
  rw [set]
  decide

/-- The frame lies completely inside one region. -/
def FrameInside (mregmap : List MemoryRegion) (g : Ptr) : Prop :=
  ∃ r ∈ mregmap, r.start.toNat ≤ g.toNat ∧ g.toNat + pageSize ≤ r.finish

theorem FrameInside.mem (pages : PageRegions mregmap) (aligned : PageAligned g)
    (inside : FrameInside mregmap g) : g ∈ mapFrames mregmap := by
  rcases inside with ⟨r, member, low, high⟩
  have start := (pages r member).1
  refine List.mem_flatMap.mpr ⟨r, member, mem_framesFrom.mpr
    ⟨(g.toNat - r.start.toNat) / pageSize, ?_, ?_⟩⟩
  · unfold MemoryRegion.finish MemoryRegion.pageCount pageSize at *
    omega
  · have place : r.start.toNat + (g.toNat - r.start.toNat) / pageSize * pageSize = g.toNat := by
      unfold PageAligned pageSize at *
      omega
    rw [place, BitVec.ofNat_toNat, BitVec.setWidth_eq]

end

/-- The available frames are those that lie completely inside one region. -/
def FallocExact (mregmap : List MemoryRegion) (s : Falloc) : Prop :=
  ∀ g : Frame, s.available g.val = true ↔ FrameInside mregmap g.val

/-- The frames of the high half of the word of `f`. -/
def HighHalfInside (mregmap : List MemoryRegion) (f : Ptr) : Prop :=
  ∀ bit : Fin 64, 32 ≤ bit.val → FrameInside mregmap (frameBase (frameWord f) bit)

theorem initial_exact_iff {mregmap : List MemoryRegion} (pages : PageRegions mregmap) :
    FallocExact mregmap (Falloc.initial mregmap) ↔ ∀ f ∈ mapFrames mregmap,
      FrameInside mregmap f ∧ (frameBit f < 32 → HighHalfInside mregmap f) := by
  unfold FallocExact
  constructor
  · intro right f member
    have cleared : ∀ g : Frame, Clears f g.val → FrameInside mregmap g.val := fun g clears =>
      (right g).mp ((initial_available pages g.val).mpr ⟨f, member, clears⟩)
    refine ⟨cleared ⟨f, mapFrames_aligned pages member⟩ ⟨rfl, .inl rfl⟩, fun low bit high => ?_⟩
    refine cleared ⟨_, frameBase_aligned (frameWord f) bit⟩ ⟨frameWord_frameBase _ _, .inr ⟨low, ?_⟩⟩
    rw [frameBit_frameBase]
    exact high
  · intro inside g
    rw [initial_available pages]
    constructor
    · rintro ⟨f, member, word, bit | ⟨low, high⟩⟩
      · rw [frame_ext g.property (mapFrames_aligned pages member) word bit]
        exact (inside f member).1
      · have free := (inside f member).2 low ⟨frameBit g.val, frameBit_lt g.val⟩ high
        rw [frameBase_frame g.property word] at free
        exact free
    · exact fun here => ⟨g.val, FrameInside.mem pages g.property here, rfl, .inl rfl⟩

/-- `falloc_init` ends, and the available frames are right, exactly if no region reaches into the
    last page, the loop is not taken a multiple of `2 ^ 32` times, and every page that a region
    begins has its frame, and the high half of its word for a frame of a low half, inside regions. -/
theorem fallocInit_exact_iff {mregmap : List MemoryRegion} (pages : PageRegions mregmap) :
    (∃ fuel s, fallocInit fuel mregmap Falloc.boot = .ok s ∧ FallocExact mregmap s) ↔
      (∀ r ∈ mregmap, r.finish ≤ 2 ^ 64 - pageSize) ∧ (mapFrames mregmap).length % 2 ^ 32 ≠ 0 ∧
        ∀ f ∈ mapFrames mregmap,
          FrameInside mregmap f ∧ (frameBit f < 32 → HighHalfInside mregmap f) := by
  rw [← initial_exact_iff pages]
  constructor
  · rintro ⟨fuel, s, init, right⟩
    rcases (fallocInit_ok_iff pages).mp init with ⟨ends, rfl, some_⟩
    exact ⟨fun r member => (ends r member).1, some_, right⟩
  · rintro ⟨ends, some_, right⟩
    refine ⟨(mapFrames mregmap).length + 1, _, (fallocInit_ok_iff pages).mpr
      ⟨fun r member => ⟨ends r member, ?_⟩, rfl, some_⟩, right⟩
    have part : (framesFrom r.pageCount r.start.toNat).Sublist (mapFrames mregmap) :=
      List.sublist_flatten_of_mem (List.mem_map_of_mem member)
    have few := part.length_le
    rw [framesFrom_length] at few
    exact Nat.lt_succ_of_le few

theorem fallocInit_exact_iff_frame : ∃ fuel s,
    fallocInit fuel [⟨0x121000, 0x1000, 7⟩] Falloc.boot = .ok s ∧
      FallocExact [⟨0x121000, 0x1000, 7⟩] s := by
  refine (fallocInit_exact_iff fun r member => ?_).mpr ⟨fun r member => ?_, by decide, ?_⟩
  · cases List.mem_singleton.mp member
    decide
  · cases List.mem_singleton.mp member
    decide
  · intro f member
    cases List.mem_singleton.mp member
    exact ⟨⟨_, List.mem_singleton_self _, by decide⟩, fun low => absurd low (by decide)⟩

/-- The second page of the region is cut off. -/
theorem fallocInit_partial : ∃ s, fallocInit 3 [⟨0x121000, 0x1800, 7⟩] Falloc.boot = .ok s ∧
    ¬FallocExact [⟨0x121000, 0x1800, 7⟩] s := by
  have pages : PageRegions [⟨0x121000, 0x1800, 7⟩] := by
    intro r member
    cases List.mem_singleton.mp member
    decide
  refine ⟨_, (fallocInit_ok_iff pages).mpr ⟨fun r member => ?_, rfl, by decide⟩, fun right => ?_⟩
  · cases List.mem_singleton.mp member
    decide
  · have free := (initial_available pages 0x122000).mpr ⟨0x122000, by decide, by decide⟩
    rcases (right ⟨0x122000, by decide⟩).mp free with ⟨r, member, -, high⟩
    cases List.mem_singleton.mp member
    exact absurd high (by decide)

end Dxgmx
