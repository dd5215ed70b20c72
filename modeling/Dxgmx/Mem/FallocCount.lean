import Mathlib.Data.Set.Card
import Dxgmx.Mem.FallocInit

open Library

namespace Dxgmx

def Falloc.free (s : Falloc) : Set Frame := {f | s.available f.val = true}

/-- `falloc_get_free_frames_count` answers the number of available frames. -/
def Falloc.CountRight (s : Falloc) : Prop :=
  (fallocGetFreeFramesCount s).toNat = s.free.ncard

/-- No `falloc_one_at` succeeds, and every `ffree_one` of a low half leaves a high half without
    frames in use. -/
def KeepsCount (s : Falloc) : FallocCall → Prop
  | .oneUser _ => True
  | .oneAt base _ => s.available base = false
  | .freeOne base => HighHalfAvailable s base

section

variable {s t : Falloc} {f : Frame} {call : FallocCall}

def frameNumber (f : Frame) : Fin (2 ^ 20) :=
  ⟨f.val.toNat / pageSize, by
    have bound := f.val.isLt
    unfold pageSize
    omega⟩

theorem frameNumber_injective : Function.Injective frameNumber := by
  intro f g same
  have numbers : f.val.toNat / pageSize = g.val.toNat / pageSize := congrArg Fin.val same
  have fAligned := f.property
  have gAligned := g.property
  unfold PageAligned pageSize at *
  apply Subtype.ext
  apply BitVec.eq_of_toNat_eq
  omega

instance finite_frame : Finite Frame := Finite.of_injective _ frameNumber_injective

theorem ncard_free_le (s : Falloc) : s.free.ncard ≤ 2 ^ 20 := by
  have whole := Nat.card_le_card_of_injective _ frameNumber_injective
  rw [Nat.card_fin] at whole
  exact (Set.ncard_le_card s.free).trans whole

theorem free_taken (taken : s.available f.val = true) (after : ∀ g, t.available g =
    (s.available g && !decide (frameWord g = frameWord f.val ∧ frameBit g = frameBit f.val))) :
    t.free.ncard + 1 = s.free.ncard := by
  have same : t.free = s.free \ {f} := by
    ext g
    unfold Falloc.free
    rw [Set.mem_ofPred_eq, after, Set.mem_sdiff, Set.mem_singleton_iff, Set.mem_ofPred_eq,
      Bool.and_eq_true]
    apply and_congr_right
    intro _
    simp only [Bool.not_eq_true', decide_eq_false_iff_not]
    apply not_congr
    constructor
    · rintro ⟨word, bit⟩
      exact Subtype.ext (frame_ext g.property f.property word bit)
    · rintro rfl
      exact ⟨rfl, rfl⟩
  rw [same]
  exact Set.ncard_sdiff_singleton_add_one taken

theorem fallocOneUser_count {ret : Ptr} (call : fallocOneUser s = (ret, t)) :
    t.pgframesCnt = if ret = 0 then s.pgframesCnt else s.pgframesCnt - 1 := by
  unfold fallocOneUser at call
  split at call
  · rename_i i bit found
    cases call
    exact (if_neg (frameBase_ne_zero (fallocScan_clear found).1 bit)).symm
  · split at call <;> cases call <;> rfl

theorem fallocOneAt_count {base : Ptr} {st : Int} (call : fallocOneAt base s = .ok (st, t)) :
    t.pgframesCnt = s.pgframesCnt := by
  obtain ⟨-, rest⟩ := assert_bind_ok.mp call
  obtain ⟨free, -, rest⟩ := Exec.bind_ok.mp rest
  cases free <;> cases rest <;> rfl

/-- A free keeps the count right exactly if it makes one frame available. -/
theorem ffreeOne_count_iff {base : Ptr} (used : s.available base = false)
    (call : ffreeOne base s = .ok t) (right : s.pgframesCnt.toNat = s.free.ncard) :
    t.pgframesCnt.toNat = t.free.ncard ↔ HighHalfAvailable s base := by
  have few := ncard_free_le s
  have aligned : PageAligned base := (assert_bind_ok.mp call).1
  have free : t = s.freed base := Except.ok.inj (call.symm.trans (ffreeOne_aligned aligned))
  have absent : (⟨base, aligned⟩ : Frame) ∉ s.free := fun here =>
    absurd (here.symm.trans used) (by decide)
  have part : insert ⟨base, aligned⟩ s.free ⊆ t.free := by
    intro g member
    show t.available g.val = true
    rw [ffreeOne_available call]
    rcases member with rfl | old
    · simp [Clears]
    · rw [show s.available g.val = true from old, Bool.true_or]
  have count : t.pgframesCnt.toNat = (insert ⟨base, aligned⟩ s.free).ncard := by
    rw [Set.ncard_insert_of_notMem absent, free]
    show (s.pgframesCnt + 1).toNat = _
    rw [BitVec.toNat_add]
    show (s.pgframesCnt.toNat + 1) % 2 ^ 32 = _
    omega
  rw [count]
  refine Iff.trans ?_ (ffreeOne_only_iff call)
  constructor
  · intro same g other
    have whole := Set.eq_of_subset_of_ncard_le part (Nat.le_of_eq same.symm)
    rw [Bool.eq_iff_iff]
    have here := Set.ext_iff.mp whole g
    rw [Set.mem_insert_iff, or_iff_right fun equal => other (congrArg Subtype.val equal)] at here
    exact here.symm
  · intro only
    congr 1
    apply Set.Subset.antisymm part
    intro g member
    by_cases same : g.val = base
    · exact .inl (Subtype.ext same)
    · right
      show s.available g.val = true
      rw [← only g same]
      exact member

theorem perform_count (step : s.perform call = some t) (right : s.CountRight) :
    t.CountRight ↔ KeepsCount s call := by
  have few := ncard_free_le s
  unfold Falloc.CountRight fallocGetFreeFramesCount at *
  cases call with
  | oneUser ret =>
    have call := perform_oneUser step
    have count := fallocOneUser_count call
    refine iff_of_true ?_ trivial
    rcases fallocOneUser_cases call with ⟨zero, pool⟩ | ⟨some_, aligned, taken, after⟩
    · have same : t.free = s.free := by
        unfold Falloc.free Falloc.available
        rw [pool]
      rw [count, if_pos zero, same]
      exact right
    · have less := free_taken (f := ⟨ret, aligned⟩) taken after
      rw [count, if_neg some_, BitVec.toNat_sub]
      show (2 ^ 32 - 1 + s.pgframesCnt.toNat) % 2 ^ 32 = _
      omega
  | oneAt base st =>
    have call := perform_oneAt step
    have count := fallocOneAt_count call
    rcases fallocOneAt_cases call with ⟨aligned, ⟨taken, -, after⟩ | ⟨used, -, rfl⟩⟩
    · have less := free_taken (f := ⟨base, aligned⟩) taken after
      refine iff_of_false (fun same => ?_) fun used => ?_
      · rw [count] at same
        omega
      · exact absurd (taken.symm.trans used) (by decide)
    · exact iff_of_true right used
  | freeOne base =>
    rcases perform_freeOne step with ⟨used, call⟩
    exact ffreeOne_count_iff used call right

end

/-- The regions are apart from each other. -/
def RegionsApart (mregmap : List MemoryRegion) : Prop :=
  mregmap.Pairwise fun r q => r.finish ≤ q.start.toNat ∨ q.finish ≤ r.start.toNat

/-- Each low-half frame of the map has the high half of its word in the map, too. -/
def HighHalvesMapped (mregmap : List MemoryRegion) : Prop :=
  ∀ f ∈ mapFrames mregmap, frameBit f < 32 → ∀ bit : Fin 64, 32 ≤ bit.val →
    frameBase (frameWord f) bit ∈ mapFrames mregmap

section

variable {mregmap : List MemoryRegion}

theorem mem_framesFrom_below {r : MemoryRegion} (below : r.finish ≤ 2 ^ 32) {f : Ptr}
    (member : f ∈ framesFrom r.pageCount r.start.toNat) :
    r.start.toNat ≤ f.toNat ∧ f.toNat < r.finish := by
  rcases mem_framesFrom.mp member with ⟨i, inside, rfl⟩
  rw [BitVec.toNat_ofNat]
  unfold MemoryRegion.finish MemoryRegion.pageCount pageSize at *
  omega

theorem framesFrom_nodup {count place : Nat}
    (below : ∀ i < count, place + i * pageSize < 2 ^ 32) : (framesFrom count place).Nodup := by
  induction count generalizing place with
  | zero => exact .nil
  | succ count ih =>
    rw [framesFrom, List.nodup_cons]
    constructor
    · intro member
      rcases mem_framesFrom.mp member with ⟨i, inside, same⟩
      have first := below 0 (Nat.succ_pos _)
      have later := below (i + 1) (Nat.succ_lt_succ inside)
      have values := congrArg BitVec.toNat same
      rw [BitVec.toNat_ofNat, BitVec.toNat_ofNat] at values
      unfold pageSize at *
      omega
    · apply ih
      intro i inside
      have later := below (i + 1) (Nat.succ_lt_succ inside)
      rw [Nat.succ_mul] at later
      omega

theorem mapFrames_nodup (below : ∀ r ∈ mregmap, r.finish ≤ 2 ^ 32)
    (apart : RegionsApart mregmap) : (mapFrames mregmap).Nodup := by
  refine List.nodup_flatMap.mpr ⟨fun r member => ?_, apart.imp_of_mem fun {r q} first second apart => ?_⟩
  · apply framesFrom_nodup
    intro i inside
    have bound := below r member
    unfold MemoryRegion.finish MemoryRegion.pageCount pageSize at *
    omega
  · intro f here there
    have left := mem_framesFrom_below (below r first) here
    have right := mem_framesFrom_below (below q second) there
    omega

theorem ncard_mem {frames : List Ptr} (nodup : frames.Nodup)
    (aligned : ∀ f ∈ frames, PageAligned f) :
    {g : Frame | g.val ∈ frames}.ncard = frames.length := by
  have whole : {g : Frame | g.val ∈ frames} =
      ((frames.pmap Subtype.mk aligned).toFinset : Set Frame) := by
    ext g
    rw [Set.mem_ofPred_eq, Finset.mem_coe, List.mem_toFinset, List.mem_pmap]
    constructor
    · exact fun member => ⟨g.val, member, rfl⟩
    · rintro ⟨f, member, rfl⟩
      exact member
  rw [whole, Set.ncard_coe_finset, List.toFinset_card_of_nodup, List.length_pmap]
  exact nodup.pmap fun f _ g _ same => congrArg Subtype.val same

theorem initial_count_iff (pages : PageRegions mregmap)
    (below : ∀ r ∈ mregmap, r.finish ≤ 2 ^ 32) (apart : RegionsApart mregmap) :
    (Falloc.initial mregmap).CountRight ↔ HighHalvesMapped mregmap := by
  have aligned : ∀ f ∈ mapFrames mregmap, PageAligned f := fun f => mapFrames_aligned pages
  have mapped := ncard_mem (mapFrames_nodup below apart) aligned
  have part : {g : Frame | g.val ∈ mapFrames mregmap} ⊆ (Falloc.initial mregmap).free :=
    fun g member => (initial_available pages g.val).mpr ⟨g.val, member, rfl, .inl rfl⟩
  have few := (Set.ncard_le_ncard part).trans (ncard_free_le _)
  have count : (fallocGetFreeFramesCount (Falloc.initial mregmap)).toNat =
      {g : Frame | g.val ∈ mapFrames mregmap}.ncard := by
    unfold fallocGetFreeFramesCount
    rw [initial_count, BitVec.toNat_ofNat, mapped]
    exact Nat.mod_eq_of_lt (by omega)
  unfold Falloc.CountRight
  rw [count]
  constructor
  · intro same f member low bit high
    have whole := Set.eq_of_subset_of_ncard_le part (Nat.le_of_eq same.symm)
    have cleared : Clears f (frameBase (frameWord f) bit) :=
      ⟨frameWord_frameBase _ _, .inr ⟨low, by rwa [frameBit_frameBase]⟩⟩
    have here := (Set.ext_iff.mp whole ⟨_, frameBase_aligned (frameWord f) bit⟩).mpr
    exact here ((initial_available pages _).mpr ⟨f, member, cleared⟩)
  · intro halves
    congr 1
    apply Set.Subset.antisymm part
    intro g free
    rcases (initial_available pages g.val).mp free with ⟨f, member, word, bit | ⟨low, high⟩⟩
    · show g.val ∈ mapFrames mregmap
      rw [frame_ext g.property (aligned f member) word bit]
      exact member
    · have here := halves f member low ⟨frameBit g.val, frameBit_lt g.val⟩ high
      rw [frameBase_frame g.property word] at here
      exact here

end

/-- With `falloc_init` on the map and the calls that follow it, the count is right at every point of
    the run exactly if the high halves are mapped and every call keeps the count. -/
theorem falloc_count_iff {mregmap : List MemoryRegion} (pages : PageRegions mregmap)
    (below : ∀ r ∈ mregmap, r.finish ≤ 2 ^ 32) (apart : RegionsApart mregmap) {fuel : Nat}
    {start : Falloc} (init : fallocInit fuel mregmap Falloc.boot = .ok start)
    (calls : List FallocCall) (s : Falloc) :
    (HighHalvesMapped mregmap →
        Run (fun s call t => s.perform call = some t ∧ KeepsCount s call) start calls s →
          s.CountRight) ∧
      ((HighHalvesMapped mregmap ∧
          Run (fun s call t => s.perform call = some t ∧ KeepsCount s call) start calls s) ↔
        (start.CountRight ∧
          Run (fun s call t => s.perform call = some t ∧ t.CountRight) start calls s)) := by
  rcases (fallocInit_ok_iff pages).mp init with ⟨-, rfl, -⟩
  have first := initial_count_iff pages below apart
  have runs := fun right : (Falloc.initial mregmap).CountRight =>
    @Run.good_iff _ _ (fun s call t => s.perform call = some t) (fun _ => True) Falloc.CountRight
      KeepsCount (fun _ _ _ _ _ => trivial) (fun _ _ _ step _ good => perform_count step good) _ s
      calls trivial right
  constructor
  · exact fun mapped run => (runs (first.mpr mapped)).1 run
  · rw [first]
    exact and_congr_right fun mapped => (runs (first.mpr mapped)).2

def oneFrame : List MemoryRegion := [⟨0x121000, 0x1000, 7⟩]

theorem oneFrame_pages : PageRegions oneFrame ∧ (∀ r ∈ oneFrame, r.finish ≤ 2 ^ 32) ∧
    RegionsApart oneFrame ∧ HighHalvesMapped oneFrame ∧
      fallocInit 2 oneFrame Falloc.boot = .ok (Falloc.initial oneFrame) := by
  have pages : PageRegions oneFrame := by
    intro r member
    cases List.mem_singleton.mp member
    decide
  refine ⟨pages, fun r member => ?_, List.pairwise_singleton _ _, fun f member low => ?_,
    (fallocInit_ok_iff pages).mpr ⟨fun r member => ?_, rfl, by decide⟩⟩
  · cases List.mem_singleton.mp member
    decide
  · cases List.mem_singleton.mp member
    exact absurd low (by decide)
  · cases List.mem_singleton.mp member
    decide

theorem falloc_count_iff_frame : ∃ start, fallocInit 2 oneFrame Falloc.boot = .ok start ∧
    start.CountRight := by
  rcases oneFrame_pages with ⟨pages, below, apart, mapped, init⟩
  exact ⟨_, init, (falloc_count_iff pages below apart init [] _).1 mapped (.refl _)⟩

/-- The one frame is taken, and still counted. -/
theorem falloc_miscounts : ∃ start s, fallocInit 2 oneFrame Falloc.boot = .ok start ∧
    start.perform (.oneAt 0x121000 0) = some s ∧ ¬s.CountRight := by
  rcases oneFrame_pages with ⟨pages, below, apart, mapped, init⟩
  have right := (initial_count_iff pages below apart).mpr mapped
  have taken : ((Falloc.initial oneFrame).perform (.oneAt 0x121000 0)).isSome := by decide
  obtain ⟨s, step⟩ := Option.isSome_iff_exists.mp taken
  refine ⟨_, s, init, step, fun still => ?_⟩
  have used : (Falloc.initial oneFrame).available 0x121000 = false := (perform_count step right).mp still
  exact absurd used (by decide)

end Dxgmx
