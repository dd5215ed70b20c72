import Dxgmx.Mem.FallocInit

open Library

namespace Dxgmx

/-- The number of the frame that the next search starts with. -/
def Falloc.cursorNumber (s : Falloc) : Nat :=
  s.pgframesUserCursor.val * 64 + s.pgframesUserSubcursor.val

def AboveCursor (s : Falloc) (f : Ptr) : Prop := s.cursorNumber < f.toNat / pageSize

/-- `falloc_one_user` fails only if it could have no frame. -/
def Falloc.Exhausts (s : Falloc) : Prop :=
  (fallocOneUser s).1 = 0 → ∀ f : Frame, 2 ^ 18 ≤ f.val.toNat → s.available f.val = false

/-- An `ffree_one` makes no frame above the cursor available. -/
def FreesBelow (s : Falloc) : FallocCall → Prop
  | .freeOne base => ∀ f : Frame, Clears base f.val → s.available f.val = false →
      ¬AboveCursor s f.val
  | _ => True

def NoneAbove (s : Falloc) : Prop :=
  ∀ f : Frame, AboveCursor s f.val → 2 ^ 18 ≤ f.val.toNat → s.available f.val = false

section Scan

variable {pool : Fin pageframePoolSize → BitVec 64}

theorem fallocScanWord_none {word : BitVec 64} {below : Nat} {bound : below ≤ 64}
    (none : fallocScanWord word below bound = none) {bit : Nat} (inside : bit < below) :
    word.getLsbD bit = true := by
  induction below with
  | zero => exact absurd inside (Nat.not_lt_zero _)
  | succ below ih =>
    rw [fallocScanWord] at none
    split at none
    · rename_i set
      rcases Nat.lt_or_eq_of_le (Nat.le_of_lt_succ inside) with earlier | rfl
      · exact ih none earlier
      · exact set
    · cases none

theorem fallocScanWord_first {word : BitVec 64} {below : Nat} {bound : below ≤ 64} {bit : Fin 64}
    (found : fallocScanWord word below bound = some bit) :
    bit.val < below ∧ ∀ j, bit.val < j → j < below → word.getLsbD j = true := by
  induction below with
  | zero => cases found
  | succ below ih =>
    rw [fallocScanWord] at found
    split at found
    · rename_i set
      rcases ih found with ⟨inside, first⟩
      refine ⟨Nat.lt_succ_of_lt inside, fun j above within => ?_⟩
      rcases Nat.lt_or_eq_of_le (Nat.le_of_lt_succ within) with earlier | rfl
      · exact first j above earlier
      · exact set
    · cases found
      exact ⟨Nat.lt_succ_self _, fun j above within => absurd above (by dsimp only; omega)⟩

theorem fallocScan_none {cursor : Nat} {bound : cursor < pageframePoolSize} {sub : Fin 64}
    (none : fallocScan pool cursor bound sub = none) {i : Fin pageframePoolSize} {bit : Nat}
    (some_ : 0 < i.val) (inside : bit < 64) (below : i.val * 64 + bit ≤ cursor * 64 + sub.val) :
    (pool i).getLsbD bit = true := by
  induction cursor generalizing sub with
  | zero =>
    have := sub.isLt
    omega
  | succ cursor ih =>
    rw [fallocScan] at none
    split at none
    · cases none
    · rename_i here
      by_cases same : i.val = cursor + 1
      · have word : i = ⟨cursor + 1, bound⟩ := Fin.ext same
        rw [word]
        exact fallocScanWord_none here (by omega)
      · exact ih none (show _ ≤ cursor * 64 + 63 by omega)

theorem fallocScan_first {cursor : Nat} {bound : cursor < pageframePoolSize} {sub : Fin 64}
    {k : Fin pageframePoolSize} {b : Fin 64}
    (found : fallocScan pool cursor bound sub = some (k, b)) :
    k.val * 64 + b.val ≤ cursor * 64 + sub.val ∧ ∀ (i : Fin pageframePoolSize) (bit : Nat), bit < 64 →
      k.val * 64 + b.val < i.val * 64 + bit → i.val * 64 + bit ≤ cursor * 64 + sub.val →
        (pool i).getLsbD bit = true := by
  induction cursor generalizing sub with
  | zero => cases found
  | succ cursor ih =>
    rw [fallocScan] at found
    split at found
    · rename_i here
      cases found
      rcases fallocScanWord_first here with ⟨inside, first⟩
      refine ⟨?_, fun i bit bits above below => ?_⟩
      · dsimp only
        omega
      · have same : i = ⟨cursor + 1, bound⟩ := Fin.ext (by have := sub.isLt; dsimp only at *; omega)
        subst same
        dsimp only at *
        exact first bit (by omega) (by omega)
    · rename_i here
      rcases ih found with ⟨inside, first⟩
      have wide : (63 : Fin 64).val = 63 := rfl
      refine ⟨by omega, fun i bit bits above below => ?_⟩
      by_cases same : i.val = cursor + 1
      · have word : i = ⟨cursor + 1, bound⟩ := Fin.ext same
        rw [word]
        exact fallocScanWord_none here (by omega)
      · have := sub.isLt
        exact first i bit bits above (by omega)

end Scan

section

variable {s t : Falloc} {call : FallocCall} {mregmap : List MemoryRegion}

theorem frame_number (f : Ptr) : (frameWord f).val * 64 + frameBit f = f.toNat / pageSize := by
  unfold frameBit frameWord
  dsimp only
  omega

theorem frameWord_pos {f : Ptr} (high : 2 ^ 18 ≤ f.toNat) : 0 < (frameWord f).val := by
  unfold frameWord pageSize
  dsimp only
  omega

theorem available_false {f : Ptr} :
    s.available f = false ↔ (s.pgframePool (frameWord f)).getLsbD (frameBit f) = true := by
  unfold Falloc.available
  rw [Bool.not_eq_false']

theorem frameBase_number (i : Fin pageframePoolSize) (bit : Fin 64) :
    (frameBase i bit).toNat / pageSize = i.val * 64 + bit.val := by
  rw [← frame_number, frameWord_frameBase, frameBit_frameBase]

/-- The search looks at all frames from the cursor down to 256 KiB. -/
theorem fallocOneUser_zero_iff : (fallocOneUser s).1 = 0 ↔
    ∀ f : Frame, 2 ^ 18 ≤ f.val.toNat → ¬AboveCursor s f.val → s.available f.val = false := by
  unfold fallocOneUser
  split
  · rename_i i bit found
    have clear := fallocScan_clear found
    have first := fallocScan_first found
    refine iff_of_false (frameBase_ne_zero clear.1 bit) fun none => ?_
    have used := none ⟨_, frameBase_aligned i bit⟩ ?_ ?_
    · rw [available_false, frameWord_frameBase, frameBit_frameBase, clear.2] at used
      cases used
    · show 2 ^ 18 ≤ (frameBase i bit).toNat
      rw [frameBase_toNat]
      unfold pageSize
      omega
    · unfold AboveCursor Falloc.cursorNumber
      rw [frameBase_number]
      omega
  · rename_i none
    refine iff_of_true (by split <;> rfl) fun f high below => ?_
    unfold AboveCursor Falloc.cursorNumber at below
    rw [← frame_number] at below
    rw [available_false]
    exact fallocScan_none none (frameWord_pos high) (frameBit_lt _) (by omega)

theorem exhausts_iff : s.Exhausts ↔
    (∃ f : Frame, 2 ^ 18 ≤ f.val.toNat ∧ ¬AboveCursor s f.val ∧ s.available f.val = true) ∨
      ∀ f : Frame, 2 ^ 18 ≤ f.val.toNat → s.available f.val = false := by
  unfold Falloc.Exhausts
  rw [fallocOneUser_zero_iff]
  constructor
  · intro exhausts
    by_cases lower : ∃ f : Frame, 2 ^ 18 ≤ f.val.toNat ∧ ¬AboveCursor s f.val ∧
        s.available f.val = true
    · exact .inl lower
    · right
      apply exhausts
      intro f high below
      rw [Bool.eq_false_iff]
      exact fun free => lower ⟨f, high, below, free⟩
  · rintro (⟨f, high, below, free⟩ | all)
    · intro none
      rw [none f high below] at free
      cases free
    · exact fun _ => all

theorem NoneAbove.oneUser {ret : Ptr} (kept : NoneAbove s) (call : fallocOneUser s = (ret, t)) :
    NoneAbove t := by
  intro f above high
  have used : s.available f.val = false := by
    by_cases old : AboveCursor s f.val
    · exact kept f old high
    cases found : fallocScan s.pgframePool s.pgframesUserCursor.val s.pgframesUserCursor.isLt
        s.pgframesUserSubcursor with
    | none =>
      have zero : (fallocOneUser s).1 = 0 := by
        unfold fallocOneUser
        rw [found]
        dsimp only
        split <;> rfl
      exact fallocOneUser_zero_iff.mp zero f high old
    | some place =>
      unfold fallocOneUser at call
      rw [found] at call
      cases call
      unfold AboveCursor Falloc.cursorNumber at old above
      dsimp only at above
      rw [← frame_number] at old above
      rw [available_false]
      exact (fallocScan_first found).2 _ _ (frameBit_lt _) above (by omega)
  rcases fallocOneUser_cases call with ⟨-, pool⟩ | ⟨-, -, -, after⟩
  · rw [available_false] at used ⊢
    rw [pool]
    exact used
  · rw [after, used, Bool.false_and]

theorem fallocOneAt_cursor {base : Ptr} {st : Int} (call : fallocOneAt base s = .ok (st, t)) :
    t.cursorNumber = s.cursorNumber := by
  obtain ⟨-, rest⟩ := assert_bind_ok.mp call
  obtain ⟨free, -, rest⟩ := Exec.bind_ok.mp rest
  cases free <;> cases rest <;> rfl

theorem ffreeOne_cursor {base : Ptr} (call : ffreeOne base s = .ok t) :
    t.cursorNumber = s.cursorNumber := by
  obtain ⟨-, result⟩ := assert_bind_ok.mp call
  cases result
  rfl

theorem NoneAbove.perform (kept : NoneAbove s) (step : s.perform call = some t)
    (below : FreesBelow s call) : NoneAbove t := by
  cases call with
  | oneUser ret => exact kept.oneUser (perform_oneUser step)
  | oneAt base st =>
    have call := perform_oneAt step
    intro f above high
    unfold AboveCursor at above
    rw [fallocOneAt_cursor call] at above
    rcases fallocOneAt_cases call with ⟨-, ⟨-, -, after⟩ | ⟨-, -, rfl⟩⟩
    · rw [after, kept f above high, Bool.false_and]
    · exact kept f above high
  | freeOne base =>
    have call := (perform_freeOne step).2
    intro f above high
    unfold AboveCursor at above
    rw [ffreeOne_cursor call] at above
    have used := kept f above high
    rw [ffreeOne_available call, used, Bool.false_or, decide_eq_false_iff_not]
    exact fun cleared => below f cleared used above

theorem pageframeAddAvailable_cursor {stop frame : BitVec 64} {fuel : Nat}
    (call : pageframeAddAvailable stop fuel frame s = .ok t) :
    t.cursorNumber = s.cursorNumber := by
  induction fuel generalizing frame s with
  | zero => cases call
  | succ fuel ih =>
    rw [pageframeAddAvailable] at call
    split_ifs at call with more
    · obtain ⟨u, freed, rest⟩ := Exec.bind_ok.mp call
      rw [ih rest, ffreeOne_cursor freed]
    · cases call
      rfl

theorem foldlM_cursor {fuel : Nat} (call : mregmap.foldlM
    (fun s area => pageframeAddAvailable (area.start + area.size) fuel area.start s) s = .ok t) :
    t.cursorNumber = s.cursorNumber := by
  induction mregmap generalizing s with
  | nil =>
    cases call
    rfl
  | cons area mregmap ih =>
    rw [List.foldlM_cons, Exec.bind_ok] at call
    rcases call with ⟨u, first, rest⟩
    rw [ih rest, pageframeAddAvailable_cursor first]

theorem fallocInit_cursor {fuel : Nat} (init : fallocInit fuel mregmap s = .ok t) :
    t.cursorNumber = s.cursorNumber := by
  rcases Exec.bind_ok.mp init with ⟨u, folded, checked⟩
  cases (assert_bind_ok.mp checked).2
  rw [foldlM_cursor folded]
  rfl

theorem fallocInit_noneAbove {fuel : Nat} (init : fallocInit fuel mregmap Falloc.boot = .ok t) :
    NoneAbove t := by
  intro f above _
  have bound := f.val.isLt
  unfold AboveCursor at above
  rw [fallocInit_cursor init] at above
  have last : Falloc.boot.cursorNumber = 2 ^ 20 - 1 := rfl
  rw [last] at above
  unfold pageSize at above
  omega

end

/-- If no free makes a frame above the cursor available, `falloc_one_user` fails in no state of the
    run that has a frame for it. In one state it is right exactly if there is a frame below the
    cursor or none at all. -/
theorem falloc_exhausts (mregmap : List MemoryRegion) (calls : List FallocCall) (s : Falloc) :
    (Falloc.Reached mregmap FreesBelow calls s → s.Exhausts) ∧
      (s.Exhausts ↔
        (∃ f : Frame, 2 ^ 18 ≤ f.val.toNat ∧ ¬AboveCursor s f.val ∧ s.available f.val = true) ∨
          ∀ f : Frame, 2 ^ 18 ≤ f.val.toNat → s.available f.val = false) := by
  refine ⟨?_, exhausts_iff⟩
  rintro ⟨fuel, start, init, run⟩
  have kept : NoneAbove s := run.invariant NoneAbove
    (fun _ _ _ step kept => kept.perform step.1 step.2) (fallocInit_noneAbove init)
  intro none f high
  by_cases above : AboveCursor s f.val
  · exact kept f above high
  · exact fallocOneUser_zero_iff.mp none f high above

def lastFrames : List MemoryRegion := [⟨0xFFFFE000, 0x2000, 7⟩]

theorem lastFrames_pages : PageRegions lastFrames := by
  intro r member
  cases List.mem_singleton.mp member
  decide

theorem lastFrames_init : fallocInit 3 lastFrames Falloc.boot = .ok (Falloc.initial lastFrames) := by
  refine (fallocInit_ok_iff lastFrames_pages).mpr ⟨fun r member => ?_, rfl, by decide⟩
  cases List.mem_singleton.mp member
  decide

theorem falloc_exhausts_boot : (Falloc.initial lastFrames).Exhausts :=
  (falloc_exhausts lastFrames [] _).1 ⟨3, _, lastFrames_init, .refl _⟩

/-- The frame at 0xFFFFF000. -/
def lastFrame : Frame := ⟨0xFFFFF000, by decide⟩

theorem lastFrames_initial {f : Frame} (other : f.val ≠ 0xFFFFF000) (another : f.val ≠ 0xFFFFE000) :
    ¬(Falloc.initial lastFrames).available f.val = true := by
  rw [initial_available lastFrames_pages]
  have map : mapFrames lastFrames = [0xFFFFE000, 0xFFFFF000] := by decide
  simp only [map, List.mem_cons, List.not_mem_nil, or_false, exists_eq_or_imp, exists_eq_left]
  rintro (⟨word, bit | ⟨low, -⟩⟩ | ⟨word, bit | ⟨low, -⟩⟩)
  · exact another (frame_ext f.property (by decide) word bit)
  · exact absurd low (by decide)
  · exact other (frame_ext f.property (by decide) word bit)
  · exact absurd low (by decide)

/-- The last two frames are taken and the upper one is given back. -/
theorem falloc_strands : ∃ calls s, Falloc.Reached lastFrames (fun _ _ => True) calls s ∧
    ¬s.Exhausts := by
  have replayed : ([.oneUser 0xFFFFF000, .oneUser 0xFFFFE000, .freeOne 0xFFFFF000].foldlM
      Falloc.perform (Falloc.initial lastFrames)).map
        (fun s => (s.cursorNumber, s.available 0xFFFFF000, s.available 0xFFFFE000)) =
      some (2 ^ 20 - 2, true, false) := by
    decide
  rcases Option.map_eq_some_iff.mp replayed with ⟨s, done, ends⟩
  rcases Prod.mk.inj ends with ⟨cursor, frames⟩
  rcases Prod.mk.inj frames with ⟨free, used⟩
  have run := Run.of_foldlM _ done
  have others : ∀ f : Frame, f.val ≠ 0xFFFFF000 → s.available f.val = false := by
    intro f other
    by_cases another : f.val = 0xFFFFE000
    · rw [another]
      exact used
    · have known : ∀ call ∈ [.oneUser 0xFFFFF000, .oneUser 0xFFFFE000, .freeOne 0xFFFFF000],
          (∀ s, SafeFree s call) ∧ ¬call.gives f := by
        simp only [List.forall_mem_cons]
        refine ⟨⟨fun _ => trivial, id⟩, ⟨fun _ => trivial, id⟩, ⟨fun s low => ?_, ?_⟩, by simp⟩
        · exact absurd low (by decide)
        · exact fun same => other same.symm
      rw [Bool.eq_false_iff]
      exact (run.labelled known).invariant (fun s => ¬s.available f.val = true)
        (fun s _ _ step kept => perform_keeps step.1 (step.2.1 s) step.2.2 kept)
        (lastFrames_initial other another)
  refine ⟨_, s, ⟨3, _, lastFrames_init, run.mono fun _ _ _ step => ⟨step, trivial⟩⟩, fun right => ?_⟩
  have zero : (fallocOneUser s).1 = 0 := by
    rw [fallocOneUser_zero_iff]
    intro f _ below
    apply others
    intro same
    unfold AboveCursor at below
    rw [cursor, same] at below
    exact below (by decide)
  cases (right zero lastFrame (by decide)).symm.trans free

end Dxgmx
