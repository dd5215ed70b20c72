import Dxgmx.Fs.VfsFdt
import Mathlib.Algebra.Group.Nat.Defs

namespace Dxgmx

/-- The fields of a process that its descriptors and its death use. `fd_count` is the length of
    `fds`. -/
structure Process where
  pid : Pid
  fds : List Bool
  fdLastFreeIdx : Nat
  zombie : Bool
  exitStatus : BitVec 32
  deriving DecidableEq

/-- A block that a `size_t` cannot measure does not exist. -/
def procEnlargeFds (mem : Bool) (proc : Process) : Option Process :=
  if mem = false ∨ 2 ^ 32 ≤ proc.fds.length + 4 then none
  else some { proc with fds := proc.fds ++ List.replicate 4 false }

def procInit (mem : Bool) : Option Process := procEnlargeFds mem ⟨0, [], 0, false, 0⟩

/-- The search over the flags from `idx` on; `none` when it is back at `startPoint`. -/
def procNewFdLoop (startPoint : Nat) : Nat → List Bool → Option Nat
  | idx, true :: rest =>
    if idx + 1 = startPoint then none else procNewFdLoop startPoint (idx + 1) rest
  | idx, _ => some idx

def procNewFd (mem : Bool) (proc : Process) : Int × Process :=
  let startPoint := proc.fdLastFreeIdx
  match procNewFdLoop startPoint startPoint (proc.fds.drop startPoint) with
  | none => (-39, proc)
  | some idx =>
    let proc := { proc with fdLastFreeIdx := idx }
    match if idx = proc.fds.length then procEnlargeFds mem proc else some proc with
    | none => (-12, proc)
    | some proc =>
      ((BitVec.ofNat 32 idx).toInt,
        { proc with fds := proc.fds.set idx true, fdLastFreeIdx := idx + 1 })

def procFreeFd (fd : Fd) (proc : Process) : Process :=
  if proc.fds.length ≤ fd.toNat then proc else { proc with fds := proc.fds.set fd.toNat false }

@[simp] theorem procFreeFd_pid (fd : Fd) (proc : Process) : (procFreeFd fd proc).pid = proc.pid := by
  unfold procFreeFd
  split <;> rfl

theorem procEnlargeFds_pid {mem : Bool} {proc grown : Process}
    (h : procEnlargeFds mem proc = some grown) : grown.pid = proc.pid := by
  unfold procEnlargeFds at h
  split at h
  · cases h
  · cases h
    rfl

theorem procNewFd_pid (mem : Bool) (proc : Process) : (procNewFd mem proc).2.pid = proc.pid := by
  unfold procNewFd
  dsimp only
  split
  · rfl
  · split
    · rfl
    · rename_i grown
      split at grown
      · have same := procEnlargeFds_pid grown
        exact same
      · cases grown
        rfl

/-- The search starts inside the flags, and an `int` numbers them. -/
structure Process.Fits (proc : Process) : Prop where
  start : proc.fdLastFreeIdx ≤ proc.fds.length
  short : proc.fds.length < 2 ^ 32

theorem procNewFdLoop_some {startPoint idx found : Nat} {fds : List Bool}
    (h : procNewFdLoop startPoint idx fds = some found) :
    idx ≤ found ∧ found ≤ idx + fds.length ∧ fds.getD (found - idx) false = false := by
  induction fds generalizing idx with
  | nil =>
    cases h
    exact ⟨Nat.le_refl _, Nat.le_refl _, rfl⟩
  | cons used rest ih =>
    cases used with
    | false =>
      cases h
      rw [Nat.sub_self]
      exact ⟨Nat.le_refl _, Nat.le_add_right _ _, rfl⟩
    | true =>
      rw [procNewFdLoop] at h
      split at h
      · cases h
      · obtain ⟨above, below, free⟩ := ih h
        rw [List.length_cons]
        refine ⟨by omega, by omega, ?_⟩
        have next : found - idx = (found - (idx + 1)) + 1 := by omega
        rw [next, List.getD_cons_succ]
        exact free

theorem getD_set_flag (fds : List Bool) {idx : Nat} (inside : idx < fds.length) (flag : Bool)
    (i : Nat) : (fds.set idx flag).getD i false = if i = idx then flag else fds.getD i false := by
  rw [List.getD_eq_getElem?_getD, List.getD_eq_getElem?_getD, List.getElem?_set]
  by_cases same : i = idx
  · rw [if_pos same.symm, if_pos same, if_pos inside]
    rfl
  · rw [if_neg (Ne.symm same), if_neg same]

theorem procFreeFd_fds (fd : Fd) (proc : Process) (i : Nat) :
    (procFreeFd fd proc).fds.getD i false =
      if i = fd.toNat then false else proc.fds.getD i false := by
  unfold procFreeFd
  by_cases beyond : proc.fds.length ≤ fd.toNat
  · rw [if_pos beyond]
    by_cases same : i = fd.toNat
    · rw [if_pos same, same, List.getD_eq_getElem?_getD, List.getElem?_eq_none beyond]
      rfl
    · rw [if_neg same]
  · rw [if_neg beyond]
    exact getD_set_flag _ (Nat.lt_of_not_le beyond) false i

theorem Process.Fits.freeFd {proc : Process} (fits : proc.Fits) (fd : Fd) :
    (procFreeFd fd proc).Fits := by
  unfold procFreeFd
  split
  · exact fits
  · exact ⟨by rw [List.length_set]; exact fits.start, by rw [List.length_set]; exact fits.short⟩

theorem getD_append_false {fds tail : List Bool} (free : ∀ flag ∈ tail, flag = false) (i : Nat) :
    (fds ++ tail).getD i false = fds.getD i false := by
  rw [List.getD_eq_getElem?_getD, List.getD_eq_getElem?_getD]
  by_cases inside : i < fds.length
  · rw [List.getElem?_append_left inside]
  · rw [List.getElem?_append_right (Nat.le_of_not_lt inside),
      List.getElem?_eq_none (Nat.le_of_not_lt inside)]
    cases there : tail[i - fds.length]? with
    | none => rfl
    | some flag => exact free flag (List.mem_of_getElem? there)

/-- The place for a descriptor that the search found, after the flags grew where they had to. -/
theorem procEnlargeFds_place {mem : Bool} {proc grown : Process} {idx : Nat} (fits : proc.Fits)
    (inside : idx ≤ proc.fds.length)
    (h : (if idx = proc.fds.length then procEnlargeFds mem proc else some proc) = some grown) :
    ∃ tail, grown = { proc with fds := proc.fds ++ tail } ∧ (∀ flag ∈ tail, flag = false) ∧
      idx < (proc.fds ++ tail).length ∧ (proc.fds ++ tail).length < 2 ^ 32 := by
  by_cases full : idx = proc.fds.length
  · rw [if_pos full] at h
    unfold procEnlargeFds at h
    split at h
    · cases h
    · rename_i room
      cases h
      refine ⟨List.replicate 4 false, rfl, fun flag member => List.eq_of_mem_replicate member, ?_⟩
      rw [List.length_append, List.length_replicate]
      omega
  · rw [if_neg full] at h
    cases h
    refine ⟨[], by rw [List.append_nil], nofun, ?_⟩
    rw [List.append_nil]
    exact ⟨Nat.lt_of_le_of_ne inside full, fits.short⟩

/-- The number that `proc_new_fd` takes, if it finds one. -/
def pickedFd (mem : Bool) (proc : Process) : Option Nat :=
  (procNewFdLoop proc.fdLastFreeIdx proc.fdLastFreeIdx (proc.fds.drop proc.fdLastFreeIdx)).filter
    fun idx => idx ≠ proc.fds.length ∨ mem = true ∧ proc.fds.length + 4 < 2 ^ 32

/-- `proc_new_fd` fails and marks nothing, or marks the number that it found free. -/
theorem procNewFd_cases {mem : Bool} {proc proc' : Process} {procfd : Int} (fits : proc.Fits)
    (h : procNewFd mem proc = (procfd, proc')) :
    proc'.pid = proc.pid ∧ proc'.Fits ∧
      ((pickedFd mem proc = none ∧ procfd < 0 ∧ proc'.fds = proc.fds) ∨
        ∃ idx, pickedFd mem proc = some idx ∧ procfd = (BitVec.ofNat 32 idx).toInt ∧ idx < 2 ^ 32 ∧
          proc.fds.getD idx false = false ∧
          ∀ i, proc'.fds.getD i false = if i = idx then true else proc.fds.getD i false) := by
  unfold procNewFd at h
  unfold pickedFd
  dsimp only at h
  split at h
  · rename_i none
    cases h
    rw [none]
    exact ⟨rfl, fits, .inl ⟨rfl, by decide, rfl⟩⟩
  · rename_i idx found
    obtain ⟨above, below, free⟩ := procNewFdLoop_some found
    rw [List.length_drop] at below
    have inside : idx ≤ proc.fds.length := by
      have start := fits.start
      omega
    have fits' : Process.Fits { proc with fdLastFreeIdx := idx } := ⟨inside, fits.short⟩
    rw [found, Option.filter_some]
    split at h
    · rename_i full
      cases h
      refine ⟨rfl, fits', .inl ⟨?_, by decide, rfl⟩⟩
      rw [if_neg]
      rw [decide_eq_true_eq]
      split at full
      · rename_i last
        unfold procEnlargeFds at full
        split at full
        · rename_i refused
          rcases refused with refused | refused
          · simp [last, refused]
          · exact fun room => room.elim (absurd last) fun room => absurd room.2 (Nat.not_lt.mpr refused)
        · cases full
      · cases full
    · rename_i grown room
      have picked : idx ≠ proc.fds.length ∨ mem = true ∧ proc.fds.length + 4 < 2 ^ 32 := by
        by_contra neither
        rw [not_or, not_not, not_and_or] at neither
        obtain ⟨last, refused⟩ := neither
        unfold procEnlargeFds at room
        rw [if_pos last, if_pos] at room
        · cases room
        · exact refused.imp Bool.eq_false_iff.mpr Nat.not_lt.mp
      obtain ⟨tail, rfl, unused, place, short⟩ := procEnlargeFds_place fits' inside room
      cases h
      dsimp only at place short ⊢
      refine ⟨rfl, ⟨?_, ?_⟩, .inr ⟨idx, if_pos (decide_eq_true picked), rfl,
        Nat.lt_trans place short, ?_, fun i => ?_⟩⟩
      · rw [List.length_set]
        exact place
      · rw [List.length_set]
        exact short
      · rw [List.getD_eq_getElem?_getD, List.getElem?_drop,
          Nat.add_sub_cancel' above, ← List.getD_eq_getElem?_getD] at free
        exact free
      · rw [getD_set_flag _ place, getD_append_false unused]

/-- A new descriptor was free and is not any more; the other flags stay. -/
theorem procNewFd_spec {mem : Bool} {proc proc' : Process} {procfd : Int} (fits : proc.Fits)
    (h : procNewFd mem proc = (procfd, proc')) :
    proc'.pid = proc.pid ∧ proc'.Fits ∧
      (∀ i, proc.fds.getD i false = true → proc'.fds.getD i false = true) ∧
      (0 ≤ procfd → proc.fds.getD (BitVec.ofInt 32 procfd).toNat false = false ∧
        proc'.fds.getD (BitVec.ofInt 32 procfd).toNat false = true) := by
  obtain ⟨named, fits', ⟨-, failed, same⟩ | ⟨idx, -, rfl, short, free, marked⟩⟩ :=
    procNewFd_cases fits h
  · rw [same]
    exact ⟨named, fits', fun _ set => set, fun positive => absurd positive (Int.not_le.mpr failed)⟩
  · have small : (BitVec.ofNat 32 idx).toNat = idx := by
      rw [BitVec.toNat_ofNat]
      exact Nat.mod_eq_of_lt short
    refine ⟨named, fits', fun i set => ?_, fun _ => ?_⟩
    · rw [marked]
      split
      · rfl
      · exact set
    · rw [BitVec.ofInt_toInt, small, marked, if_pos rfl]
      exact ⟨free, rfl⟩

end Dxgmx
