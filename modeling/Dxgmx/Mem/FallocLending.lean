import Dxgmx.Mem.Falloc

open Library

namespace Dxgmx

def PageAligned (p : Ptr) : Prop := p.toNat % pageSize = 0

instance (p : Ptr) : Decidable (PageAligned p) := inferInstanceAs (Decidable (_ = _))

abbrev Frame := { base : Ptr // PageAligned base }

theorem frameBit_eq (base : Ptr) : frameBit base = base.toNat / pageSize % 64 := by
  simp only [frameBit, frameWord]
  omega

theorem frameBit_lt (base : Ptr) : frameBit base < 64 := by
  rw [frameBit_eq]
  exact Nat.mod_lt _ (by decide)

theorem frameBase_toNat (word : Fin pageframePoolSize) (bit : Fin 64) :
    (frameBase word bit).toNat = word.val * 64 * pageSize + bit.val * pageSize := by
  have wordBound := word.isLt
  have bitBound := bit.isLt
  unfold pageframePoolSize at wordBound
  simp only [frameBase, pageSize, BitVec.toNat_ofNat]
  omega

theorem frameBase_aligned (word : Fin pageframePoolSize) (bit : Fin 64) :
    PageAligned (frameBase word bit) := by
  unfold PageAligned
  rw [frameBase_toNat, ← Nat.add_mul, Nat.mul_mod_left]

/-- Word 0 holds the frames below 256 KiB. -/
theorem frameBase_ne_zero {word : Fin pageframePoolSize} (positive : 0 < word.val) (bit : Fin 64) :
    frameBase word bit ≠ 0 := by
  intro zero
  have value := congrArg BitVec.toNat zero
  rw [frameBase_toNat] at value
  simp only [pageSize, BitVec.ofNat_eq_ofNat, BitVec.toNat_ofNat] at value
  omega

theorem frameWord_frameBase (word : Fin pageframePoolSize) (bit : Fin 64) :
    frameWord (frameBase word bit) = word := by
  have bitBound := bit.isLt
  apply Fin.ext
  simp only [frameWord, frameBase_toNat, pageSize]
  omega

theorem frameBit_frameBase (word : Fin pageframePoolSize) (bit : Fin 64) :
    frameBit (frameBase word bit) = bit.val := by
  have bitBound := bit.isLt
  simp only [frameBit_eq, frameBase_toNat, pageSize]
  omega

/-- A page-aligned address is determined by its bitmap word and bit. -/
theorem frame_ext {f g : Ptr} (hf : PageAligned f) (hg : PageAligned g)
    (word : frameWord f = frameWord g) (bit : frameBit f = frameBit g) : f = g := by
  have words := congrArg Fin.val word
  simp only [PageAligned, frameBit_eq, frameWord, pageSize] at *
  apply BitVec.eq_of_toNat_eq
  omega

theorem frameBase_frame {f g : Ptr} (aligned : PageAligned g) (word : frameWord g = frameWord f) :
    frameBase (frameWord f) ⟨frameBit g, frameBit_lt g⟩ = g := by
  refine frame_ext (frameBase_aligned _ _) aligned ?_ ?_
  · rw [frameWord_frameBase, word]
  · rw [frameBit_frameBase]

/-- The frames that `ffree_one(f)` marks available, whatever they were before. -/
def Clears (f g : Ptr) : Prop :=
  frameWord g = frameWord f ∧
    (frameBit g = frameBit f ∨ (frameBit f < 32 ∧ 32 ≤ frameBit g))

instance (f g : Ptr) : Decidable (Clears f g) := inferInstanceAs (Decidable (_ ∧ _))

theorem ffreeOne_available {f : Ptr} {s t : Falloc} (call : ffreeOne f s = .ok t) (g : Ptr) :
    t.available g = (s.available g || decide (Clears f g)) := by
  obtain ⟨-, result⟩ := assert_bind_ok.mp call
  cases result
  have fBound := frameBit_lt f
  have gBound := frameBit_lt g
  unfold Falloc.available Clears
  by_cases word : frameWord g = frameWord f
  · simp only [word, Function.update_self, true_and]
    by_cases low : frameBit f < 32
    · rw [bwClear_low_getLsbD _ _ _ low]
      grind
    · rw [bwClear_high_getLsbD _ _ _ (by omega) fBound]
      grind
  · simp [word]

theorem bwSet_available (s : Falloc) (f g : Ptr) (bound : frameBit f < 64) :
    (!(Function.update s.pgframePool (frameWord f)
        (bwSet (s.pgframePool (frameWord f)) (frameBit f)) (frameWord g)).getLsbD (frameBit g)) =
      (s.available g && !decide (frameWord g = frameWord f ∧ frameBit g = frameBit f)) := by
  unfold Falloc.available
  by_cases word : frameWord g = frameWord f
  · simp only [word, Function.update_self, true_and]
    rw [bwSet_getLsbD _ _ _ bound]
    grind
  · simp [word]

theorem fallocOneAt_cases {base : Ptr} {s t : Falloc} {st : Int}
    (call : fallocOneAt base s = .ok (st, t)) :
    PageAligned base ∧
      ((s.available base = true ∧ st = 0 ∧ ∀ g, t.available g =
          (s.available g && !decide (frameWord g = frameWord base ∧ frameBit g = frameBit base))) ∨
        (s.available base = false ∧ st = -12 ∧ t = s)) := by
  obtain ⟨aligned, rest⟩ := assert_bind_ok.mp call
  refine ⟨aligned, ?_⟩
  have check : fallocIsFrameAvailable base s = .ok (s.available base) := by
    simp [fallocIsFrameAvailable, assert, aligned, Bind.bind, Except.bind, Pure.pure, Except.pure]
  rw [check] at rest
  cases free : s.available base with
  | true =>
    simp only [free, Bind.bind, Except.bind, Pure.pure, Except.pure, ↓reduceIte] at rest
    cases rest
    exact .inl ⟨rfl, rfl, fun g => bwSet_available s base g (frameBit_lt base)⟩
  | false =>
    simp only [free, Bind.bind, Except.bind, Pure.pure, Except.pure, Bool.false_eq_true,
      ↓reduceIte] at rest
    cases rest
    exact .inr ⟨rfl, rfl, rfl⟩

theorem fallocScanWord_clear {word : BitVec 64} {below : Nat} {bound : below ≤ 64} {bit : Fin 64}
    (found : fallocScanWord word below bound = some bit) : word.getLsbD bit.val = false := by
  induction below with
  | zero => cases found
  | succ k ih =>
    simp only [fallocScanWord] at found
    split at found
    · exact ih found
    · rename_i clear
      cases found
      simpa using clear

theorem fallocScan_clear {pool : Fin pageframePoolSize → BitVec 64} {cursor : Nat}
    {bound : cursor < pageframePoolSize} {sub : Fin 64} {i : Fin pageframePoolSize} {bit : Fin 64}
    (found : fallocScan pool cursor bound sub = some (i, bit)) :
    0 < i.val ∧ (pool i).getLsbD bit.val = false := by
  induction cursor generalizing sub with
  | zero => cases found
  | succ cursor ih =>
    simp only [fallocScan] at found
    split at found
    · rename_i hit scanned
      cases found
      exact ⟨Nat.succ_pos _, fallocScanWord_clear scanned⟩
    · exact ih found

/-- A nonzero result is an available frame, and it is the only one that stops being available. -/
theorem fallocOneUser_cases {s t : Falloc} {ret : Ptr} (call : fallocOneUser s = (ret, t)) :
    (ret = 0 ∧ t.pgframePool = s.pgframePool) ∨
      (ret ≠ 0 ∧ PageAligned ret ∧ s.available ret = true ∧ ∀ g, t.available g =
        (s.available g && !decide (frameWord g = frameWord ret ∧ frameBit g = frameBit ret))) := by
  unfold fallocOneUser at call
  split at call
  · rename_i i bit found
    obtain ⟨positive, clear⟩ := fallocScan_clear found
    cases call
    refine .inr ⟨frameBase_ne_zero positive bit, frameBase_aligned i bit, ?_, fun g => ?_⟩
    · simp only [Falloc.available, frameWord_frameBase, frameBit_frameBase, clear, Bool.not_false]
    · have marked := bwSet_available s (frameBase i bit) g (frameBit_lt _)
      rw [frameWord_frameBase, frameBit_frameBase] at marked ⊢
      exact marked
  · split at call <;> cases call <;> exact .inl ⟨rfl, rfl⟩

/-- One call with what it returned. -/
inductive FallocCall
  | oneUser (ret : Ptr)
  | oneAt (base : Ptr) (st : Int)
  | freeOne (base : Ptr)

/-- The state after a call, if it returns what the record says. `ffree_one` is only called on a
    frame that is allocated at that moment. -/
def Falloc.perform (s : Falloc) : FallocCall → Option Falloc
  | .oneUser ret => if (fallocOneUser s).1 = ret then some (fallocOneUser s).2 else none
  | .oneAt base st =>
    match fallocOneAt base s with
    | .ok (result, t) => if result = st then some t else none
    | .error _ => none
  | .freeOne base => if s.available base then none else (ffreeOne base s).toOption

theorem perform_oneUser {s t : Falloc} {ret : Ptr} (step : s.perform (.oneUser ret) = some t) :
    fallocOneUser s = (ret, t) := by
  simp only [Falloc.perform, Option.ite_none_right_eq_some, Option.some.injEq] at step
  exact Prod.ext step.1 step.2

theorem perform_oneAt {s t : Falloc} {base : Ptr} {st : Int}
    (step : s.perform (.oneAt base st) = some t) : fallocOneAt base s = .ok (st, t) := by
  simp only [Falloc.perform] at step
  split at step
  · rename_i result u call
    simp only [Option.ite_none_right_eq_some, Option.some.injEq] at step
    rw [call, step.1, step.2]
  · cases step

theorem perform_freeOne {s t : Falloc} {base : Ptr} (step : s.perform (.freeOne base) = some t) :
    s.available base = false ∧ ffreeOne base s = .ok t := by
  simp only [Falloc.perform] at step
  split at step
  · cases step
  · rename_i used
    refine ⟨by simpa using used, ?_⟩
    cases call : ffreeOne base s with
    | error stop => simp [call, Except.toOption] at step
    | ok u =>
      simp only [call, Except.toOption, Option.some.injEq] at step
      rw [step]

def FallocCall.takes : FallocCall → Frame → Prop
  | .oneUser ret, f => ret ≠ 0 ∧ ret = f.val
  | .oneAt base st, f => st = 0 ∧ base = f.val
  | .freeOne _, _ => False

def FallocCall.gives : FallocCall → Frame → Prop
  | .freeOne base, f => base = f.val
  | _, _ => False

/-- Either `f` sits in the low half of its word with nothing in use in the high half, or it sits in
    the high half. -/
def HighHalfAvailable (s : Falloc) (f : Ptr) : Prop :=
  frameBit f < 32 → ∀ bit : Fin 64, 32 ≤ bit.val →
    s.available (frameBase (frameWord f) bit) = true

instance (s : Falloc) (f : Ptr) : Decidable (HighHalfAvailable s f) :=
  inferInstanceAs (Decidable (_ → _))

def SafeFree (s : Falloc) : FallocCall → Prop
  | .freeOne base => HighHalfAvailable s base
  | _ => True

instance (s : Falloc) : (call : FallocCall) → Decidable (SafeFree s call)
  | .freeOne base => inferInstanceAs (Decidable (HighHalfAvailable s base))
  | .oneUser _ => inferInstanceAs (Decidable True)
  | .oneAt _ _ => inferInstanceAs (Decidable True)

/-- States reached from `falloc_init` on `mregmap` by the calls in order, each of them `safe` in the
    state it is made in. -/
def Falloc.Reached (mregmap : List MemoryRegion) (safe : Falloc → FallocCall → Prop)
    (calls : List FallocCall) (s : Falloc) : Prop :=
  ∃ fuel start, fallocInit fuel mregmap Falloc.boot = .ok start ∧
    Run (fun s call t => s.perform call = some t ∧ safe s call) start calls s

theorem ffreeOne_only_iff {f : Ptr} {s t : Falloc} (call : ffreeOne f s = .ok t) :
    (∀ g : Frame, g.val ≠ f → t.available g.val = s.available g.val) ↔ HighHalfAvailable s f := by
  have aligned : PageAligned f := (assert_bind_ok.mp call).1
  constructor
  · intro only low bit high
    have other : frameBase (frameWord f) bit ≠ f := by
      intro same
      have bits := frameBit_frameBase (frameWord f) bit
      rw [same] at bits
      omega
    have same := only ⟨_, frameBase_aligned (frameWord f) bit⟩ other
    rw [ffreeOne_available call] at same
    have cleared : Clears f (frameBase (frameWord f) bit) :=
      ⟨frameWord_frameBase _ _, .inr ⟨low, by rwa [frameBit_frameBase]⟩⟩
    simpa [cleared] using same
  · intro safe g other
    rw [ffreeOne_available call]
    by_cases cleared : Clears f g.val
    · obtain ⟨word, bit | ⟨low, high⟩⟩ := cleared
      · exact absurd (frame_ext g.property aligned word bit) other
      · have free := safe low ⟨frameBit g.val, frameBit_lt g.val⟩ high
        rw [frameBase_frame g.property word] at free
        simp [free]
    · simp [cleared]

theorem perform_takes {s t : Falloc} {call : FallocCall} {f : Frame}
    (step : s.perform call = some t) (takes : call.takes f) :
    s.available f.val = true ∧ ¬ t.available f.val = true := by
  cases call with
  | oneUser ret =>
    obtain ⟨nonzero, rfl⟩ := takes
    rcases fallocOneUser_cases (perform_oneUser step) with ⟨zero, -⟩ | ⟨-, -, free, after⟩
    · exact absurd zero nonzero
    · refine ⟨free, ?_⟩
      rw [after]
      simp
  | oneAt base st =>
    obtain ⟨success, rfl⟩ := takes
    obtain ⟨-, ⟨free, -, after⟩ | ⟨-, failure, -⟩⟩ := fallocOneAt_cases (perform_oneAt step)
    · refine ⟨free, ?_⟩
      rw [after]
      simp
    · omega
  | freeOne base => exact takes.elim

theorem perform_keeps {s t : Falloc} {call : FallocCall} {f : Frame}
    (step : s.perform call = some t) (safe : SafeFree s call) (kept : ¬ call.gives f)
    (used : ¬ s.available f.val = true) : ¬ t.available f.val = true := by
  cases call with
  | oneUser ret =>
    rcases fallocOneUser_cases (perform_oneUser step) with ⟨-, pool⟩ | ⟨-, -, -, after⟩
    · unfold Falloc.available at used ⊢
      rw [pool]
      exact used
    · rw [after]
      simp [used]
  | oneAt base st =>
    obtain ⟨-, ⟨-, -, after⟩ | ⟨-, -, same⟩⟩ := fallocOneAt_cases (perform_oneAt step)
    · rw [after]
      simp [used]
    · rw [same]
      exact used
  | freeOne base =>
    have other : f.val ≠ base := fun same => kept same.symm
    rw [(ffreeOne_only_iff (perform_freeOne step).2).mpr safe f other]
    exact used

/-- While every freed frame of a low half leaves a high half without frames in use, frames are lent
    exclusively; and a free spares all other frames exactly under that condition. -/
theorem falloc_lends_exclusively (mregmap : List MemoryRegion) (calls : List FallocCall)
    (s : Falloc) (reached : Falloc.Reached mregmap SafeFree calls s) :
    Exclusive FallocCall.takes FallocCall.gives calls ∧
      ∀ f t, s.perform (.freeOne f) = some t → t.available f = true ∧
        ((∀ g : Frame, g.val ≠ f → t.available g.val = s.available g.val) ↔
          HighHalfAvailable s f) := by
  obtain ⟨fuel, start, -, run⟩ := reached
  constructor
  · refine run.exclusive (fun s f => s.available f.val = true) ?_ ?_ ?_
    · intro s call t f step takes
      exact (perform_takes step.1 takes).1
    · intro s call t f step takes
      exact (perform_takes step.1 takes).2
    · intro s call t f step kept used
      exact perform_keeps step.1 step.2 kept used
  · intro f t step
    have call := (perform_freeOne step).2
    refine ⟨?_, ffreeOne_only_iff call⟩
    rw [ffreeOne_available call]
    simp [Clears]

theorem Falloc.reached_of_replay (mregmap : List MemoryRegion) (safe : Falloc → FallocCall → Prop)
    [∀ s call, Decidable (safe s call)] (fuel : Nat) (calls : List FallocCall)
    (done : ((fallocInit fuel mregmap Falloc.boot).toOption.bind fun start =>
      calls.foldlM (fun s call => if safe s call then s.perform call else none) start).isSome) :
    ∃ s, Falloc.Reached mregmap safe calls s := by
  obtain ⟨s, replayed⟩ := Option.isSome_iff_exists.mp done
  obtain ⟨start, init, made⟩ := Option.bind_eq_some_iff.mp replayed
  obtain ⟨t, run⟩ := Run.of_replay Falloc.perform safe start calls (by rw [made]; rfl)
  refine ⟨t, fuel, start, ?_, run⟩
  cases call : fallocInit fuel mregmap Falloc.boot with
  | error stop => simp [call, Except.toOption] at init
  | ok booted =>
    simp only [call, Except.toOption, Option.some.injEq] at init
    rw [init]

theorem falloc_lends_exclusively_once :
    Exclusive FallocCall.takes FallocCall.gives
      [.oneAt 0x221000 0, .freeOne 0x221000, .oneAt 0x221000 0, .oneAt 0x205000 0] := by
  obtain ⟨s, reached⟩ := Falloc.reached_of_replay [⟨0x221000, 0x1000, 7⟩, ⟨0x205000, 0x1000, 7⟩]
    SafeFree 2 [.oneAt 0x221000 0, .freeOne 0x221000, .oneAt 0x221000 0, .oneAt 0x205000 0]
    (by decide)
  exact (falloc_lends_exclusively _ _ _ reached).1

/-- Freeing the frame at `0x205000` makes the frame at `0x221000`, still in use, available. -/
theorem falloc_lends_twice :
    ¬ ∀ mregmap calls s, Falloc.Reached mregmap (fun _ _ => True) calls s →
      Exclusive FallocCall.takes FallocCall.gives calls := by
  intro claim
  obtain ⟨s, reached⟩ := Falloc.reached_of_replay [⟨0x221000, 0x1000, 7⟩, ⟨0x205000, 0x1000, 7⟩]
    (fun _ _ => True) 2
    [.oneAt 0x221000 0, .oneAt 0x205000 0, .freeOne 0x205000, .oneAt 0x221000 0] (by decide)
  obtain ⟨back, member, gives⟩ := claim _ _ _ reached [] (.oneAt 0x221000 0)
    [.oneAt 0x205000 0, .freeOne 0x205000] (.oneAt 0x221000 0) [] ⟨0x221000, by decide⟩ rfl
    ⟨rfl, rfl⟩ ⟨rfl, rfl⟩
  simp only [List.mem_cons, List.not_mem_nil, or_false] at member
  rcases member with rfl | rfl
  · exact gives
  · have same : (0x205000 : Ptr) = 0x221000 := gives
    exact absurd same (by decide)

end Dxgmx
