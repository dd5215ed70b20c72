import Dxgmx.Library.Runs
import Dxgmx.Proc.Proc
import Mathlib.Data.List.Induction
import Mathlib.Data.List.Perm.Subperm

open Library

namespace Dxgmx

/-- A call, and for `proc_new_fd` the descriptor that it returns. -/
inductive FdCall
  | new (fd : Fd)
  | free (fd : Fd)

/-- A call, whose allocations succeed. -/
def fdCall (proc : Process) : FdCall → Option Process
  | .new fd =>
    if (procNewFd true proc).1 = fd.toInt ∧ 0 ≤ fd.toInt then some (procNewFd true proc).2 else none
  | .free fd => some (procFreeFd fd proc)

/-- The descriptors that were returned, in order. -/
def newFds : List FdCall → List Fd
  | [] => []
  | .new fd :: calls => fd :: newFds calls
  | .free _ :: calls => newFds calls

def fdsInUseAfter (open_ : List Fd) : FdCall → List Fd
  | .new fd => fd :: open_
  | .free fd => open_.filter fun other => other ≠ fd

/-- The descriptors that were returned and have not been freed since. -/
def fdsInUse (calls : List FdCall) : List Fd := calls.foldl fdsInUseAfter []

def roundUp4 (n : Nat) : Nat := (n + 3) / 4 * 4

/-- At no time are more than `k` descriptors in use. -/
def AtMostInUse (k : Nat) (calls : List FdCall) : Prop :=
  ∀ before after, calls = before ++ after → (fdsInUse before).length ≤ k

def FdsDistinct (calls : List FdCall) : Prop :=
  ∀ before fd after, calls = before ++ .new fd :: after → fd ∉ fdsInUse before

/-- As long as a descriptor is free that was in use before, a descriptor like that is returned. -/
def FdsReused (calls : List FdCall) : Prop :=
  ∀ before fd after, calls = before ++ .new fd :: after →
    (∃ old ∈ newFds before, old ∉ fdsInUse before) → fd ∈ newFds before

/-- New descriptors are distinct, freed ones are reused, and the table is no larger than needed. -/
structure FdTableRight (calls : List FdCall) (fdCount : Nat) : Prop where
  distinct : FdsDistinct calls
  reused : FdsReused calls
  bounded : ∀ k, AtMostInUse k calls → fdCount ≤ max 4 (roundUp4 k)

/-- No descriptor is asked for once a descriptor that was in use has been freed. -/
def NoneFreedBefore (calls : List FdCall) : Prop :=
  ∀ before fd after, calls = before ++ .new fd :: after → ∀ old ∈ newFds before, old ∈ fdsInUse before

variable {calls before after : List FdCall} {proc start : Process} {fd : Fd}

theorem newFds_append (before after : List FdCall) :
    newFds (before ++ after) = newFds before ++ newFds after := by
  induction before with
  | nil => rfl
  | cons call before ih =>
    cases call with
    | new fd => exact congrArg (fd :: ·) ih
    | free fd => exact ih

theorem fdsInUse_snoc (calls : List FdCall) (call : FdCall) :
    fdsInUse (calls ++ [call]) = fdsInUseAfter (fdsInUse calls) call := by
  unfold fdsInUse
  rw [List.foldl_append]
  rfl

theorem fdsInUse_subset (calls : List FdCall) : fdsInUse calls ⊆ newFds calls := by
  induction calls using List.reverseRecOn with
  | nil => exact List.Subset.refl []
  | append_singleton calls call ih =>
    rw [fdsInUse_snoc, newFds_append]
    intro fd member
    cases call with
    | new fresh =>
      rcases List.mem_cons.mp member with rfl | member
      · exact List.mem_append_right _ (List.mem_singleton_self _)
      · exact List.mem_append_left _ (ih member)
    | free freed => exact List.mem_append_left _ (ih (List.mem_filter.mp member).1)

section Step

variable {idx : Nat}

/-- The number at the cursor is taken when it is free. -/
theorem procNewFd_cursor (unused : proc.fds.getD proc.fdLastFreeIdx false = false)
    (fits : proc.fdLastFreeIdx ≤ proc.fds.length) (positive : 0 ≤ (procNewFd true proc).1) :
    (procNewFd true proc).1 = (BitVec.ofNat 32 proc.fdLastFreeIdx).toInt ∧
      (procNewFd true proc).2.fdLastFreeIdx = proc.fdLastFreeIdx + 1 ∧
      (procNewFd true proc).2.fds.length =
        (if proc.fdLastFreeIdx = proc.fds.length then proc.fds.length + 4 else proc.fds.length) ∧
      ∀ i, (procNewFd true proc).2.fds.getD i false =
        if i = proc.fdLastFreeIdx then true else proc.fds.getD i false := by
  have found : procNewFdLoop proc.fdLastFreeIdx proc.fdLastFreeIdx
      (proc.fds.drop proc.fdLastFreeIdx) = some proc.fdLastFreeIdx := by
    cases left : proc.fds.drop proc.fdLastFreeIdx with
    | nil => rfl
    | cons flag rest =>
      have head : proc.fds[proc.fdLastFreeIdx]? = some flag := by
        rw [← List.head?_drop, left]
        rfl
      rw [List.getD_eq_getElem?_getD, head] at unused
      obtain rfl : flag = false := unused
      rfl
  unfold procNewFd at positive ⊢
  dsimp only at positive ⊢
  rw [found] at positive ⊢
  dsimp only at positive ⊢
  by_cases full : proc.fdLastFreeIdx = proc.fds.length
  · rw [if_pos full] at positive
    rw [if_pos full, if_pos full]
    by_cases refused : 2 ^ 32 ≤ proc.fds.length + 4
    · have stuck : procEnlargeFds true proc = none := if_pos (.inr refused)
      rw [stuck] at positive
      exact absurd (show (0 : Int) ≤ -12 from positive) (by decide)
    · have grown : procEnlargeFds true proc =
          some { proc with fds := proc.fds ++ List.replicate 4 false } :=
        if_neg (not_or.mpr ⟨by decide, refused⟩)
      rw [grown]
      dsimp only
      have inside : proc.fdLastFreeIdx < (proc.fds ++ List.replicate 4 false).length := by
        rw [List.length_append, List.length_replicate]
        omega
      refine ⟨rfl, rfl, ?_, fun i => ?_⟩
      · rw [List.length_set, List.length_append, List.length_replicate]
      · rw [getD_set_flag _ inside,
          getD_append_false fun flag member => List.eq_of_mem_replicate member]
  · rw [if_neg full, if_neg full]
    have inside : proc.fdLastFreeIdx < proc.fds.length := Nat.lt_of_le_of_ne fits full
    exact ⟨rfl, rfl, List.length_set, fun i => getD_set_flag _ inside true i⟩

end Step

/-- The descriptors are returned in ascending order, and the table has room for all of them. -/
structure FdTable (calls : List FdCall) (proc : Process) : Prop where
  cursor : proc.fdLastFreeIdx = (newFds calls).length
  fds : newFds calls = (List.range (newFds calls).length).map (BitVec.ofNat 32)
  few : (newFds calls).length ≤ 2 ^ 31
  size : proc.fds.length = max 4 (roundUp4 (newFds calls).length)
  unused : ∀ i, (newFds calls).length ≤ i → proc.fds.getD i false = false

theorem procInit_table (init : procInit true = some start) : FdTable [] start := by
  cases init
  refine ⟨rfl, rfl, Nat.zero_le _, rfl, fun i _ => ?_⟩
  show (List.replicate 4 false).getD i false = false
  rw [List.getD_eq_getElem?_getD, List.getElem?_replicate]
  split <;> rfl

theorem FdTable.newFd (table : FdTable calls proc) {proc' : Process}
    (step : fdCall proc (.new fd) = some proc') : FdTable (calls ++ [.new fd]) proc' := by
  unfold fdCall at step
  dsimp only at step
  split_ifs at step with returned
  · obtain ⟨same, positive⟩ := returned
    cases step
    have count : newFds (calls ++ [.new fd]) = newFds calls ++ [fd] := newFds_append _ _
    have length : (newFds (calls ++ [.new fd])).length = (newFds calls).length + 1 := by
      rw [count, List.length_append, List.length_singleton]
    have size := table.size
    have few := table.few
    have cursor := table.cursor
    unfold roundUp4 at size
    obtain ⟨returns, moved, grown, flags⟩ := procNewFd_cursor
      (table.unused _ (Nat.le_of_eq cursor.symm)) (by omega) (same ▸ positive)
    have fresh : fd = BitVec.ofNat 32 (newFds calls).length := by
      rw [← cursor]
      exact BitVec.eq_of_toInt_eq (same.symm.trans returns)
    have small : (newFds calls).length < 2 ^ 31 := by
      rw [fresh, BitVec.toInt_ofNat'] at positive
      by_contra large
      have last : (newFds calls).length = 2 ^ 31 := by omega
      rw [last] at positive
      exact absurd positive (by decide)
    refine ⟨moved.trans (by omega), ?_, by omega, grown.trans ?_, fun i beyond => ?_⟩
    · rw [length, List.range_succ, List.map_append, ← table.fds, count, fresh]
      rfl
    · unfold roundUp4
      split_ifs <;> omega
    · rw [flags, if_neg (by omega)]
      exact table.unused i (by omega)

theorem FdTable.freeFd (table : FdTable calls proc) (fd : Fd) :
    FdTable (calls ++ [.free fd]) (procFreeFd fd proc) := by
  have count : newFds (calls ++ [.free fd]) = newFds calls := by
    rw [newFds_append]
    exact List.append_nil _
  refine ⟨?_, ?_, ?_, ?_, fun i beyond => ?_⟩
  · rw [count, ← table.cursor]
    unfold procFreeFd
    split <;> rfl
  · rw [count]
    exact table.fds
  · rw [count]
    exact table.few
  · rw [count, ← table.size]
    unfold procFreeFd
    split
    · rfl
    · exact List.length_set
  · rw [count] at beyond
    rw [procFreeFd_fds, table.unused i beyond]
    split <;> rfl

theorem Run.fdTable (init : procInit true = some start)
    (run : Run (fun s call t => fdCall s call = some t) start calls proc) : FdTable calls proc := by
  apply run.history FdTable _ (procInit_table init)
  intro trace s call t table step
  cases call with
  | new fd => exact table.newFd step
  | free fd =>
    cases step
    exact table.freeFd fd

theorem FdTable.nodup (table : FdTable calls proc) : (newFds calls).Nodup := by
  rw [table.fds]
  apply List.Nodup.map_on _ List.nodup_range
  intro i left j right same
  rw [List.mem_range] at left right
  have few := table.few
  have equal := congrArg BitVec.toNat same
  rw [BitVec.toNat_ofNat, BitVec.toNat_ofNat, Nat.mod_eq_of_lt (by omega),
    Nat.mod_eq_of_lt (by omega)] at equal
  exact equal

theorem nodup_fresh (distinct : (newFds calls).Nodup) (split : calls = before ++ .new fd :: after) :
    (newFds before).Nodup ∧ fd ∉ newFds before := by
  have split' := congrArg newFds split
  rw [newFds_append] at split'
  rw [split'] at distinct
  obtain ⟨first, -, apart⟩ := List.nodup_append.mp distinct
  exact ⟨first, fun member => apart fd member fd List.mem_cons_self rfl⟩

theorem fdsReused_iff (distinct : (newFds calls).Nodup) :
    FdsReused calls ↔ NoneFreedBefore calls := by
  constructor
  · intro reused before fd after split old member
    by_contra freed
    exact (nodup_fresh distinct split).2 (reused before fd after split ⟨old, member, freed⟩)
  · intro held before fd after split freed
    obtain ⟨old, member, gone⟩ := freed
    exact absurd (held before fd after split old member) gone

/-- Where nothing was freed before the last new descriptor, all of them were in use then. -/
theorem NoneFreedBefore.peak (held : NoneFreedBefore calls) (distinct : (newFds calls).Nodup) {k : Nat}
    (most : AtMostInUse k calls) : (newFds calls).length ≤ k := by
  induction calls using List.reverseRecOn with
  | nil => exact Nat.zero_le k
  | append_singleton calls call ih =>
    have held' : NoneFreedBefore calls := fun before fd after split =>
      held before fd (after ++ [call]) (by rw [split, List.append_assoc]; rfl)
    have most' : AtMostInUse k calls := fun before after split =>
      most before (after ++ [call]) (by rw [split, List.append_assoc])
    rw [newFds_append] at distinct ⊢
    cases call with
    | free fd =>
      rw [show newFds [FdCall.free fd] = [] from rfl, List.append_nil] at distinct ⊢
      exact ih held' distinct most'
    | new fd =>
      have most_now := most (calls ++ [.new fd]) [] (List.append_nil _).symm
      have all : newFds calls ++ newFds [.new fd] ⊆ fdsInUse (calls ++ [.new fd]) := by
        rw [fdsInUse_snoc]
        intro old member
        rcases List.mem_append.mp member with earlier | last
        · exact List.mem_cons_of_mem _ (held calls fd [] rfl old earlier)
        · rw [List.mem_singleton.mp last]
          exact List.mem_cons_self
      exact Nat.le_trans (distinct.subperm all).length_le most_now

theorem roundUp4_mono {m n : Nat} (less : m ≤ n) : roundUp4 m ≤ roundUp4 n := by
  unfold roundUp4
  omega

/-- The descriptors are always distinct, but a freed one is never reused: the table is right as long
    as no descriptor is asked for after one was freed, and its size only depends on how many were
    asked for. -/
theorem fdTable_right_iff (start proc : Process) (calls : List FdCall)
    (init : procInit true = some start)
    (run : Run (fun s call t => fdCall s call = some t) start calls proc) :
    (FdTableRight calls proc.fds.length ↔ NoneFreedBefore calls) ∧ FdsDistinct calls ∧
      ∀ k, proc.fds.length ≤ max 4 (roundUp4 k) ↔ (newFds calls).length ≤ max 4 (roundUp4 k) := by
  have table := Run.fdTable init run
  have nodup := table.nodup
  have size := table.size
  have distinct : FdsDistinct calls := fun before fd after split used =>
    (nodup_fresh nodup split).2 (fdsInUse_subset before used)
  refine ⟨⟨fun right => (fdsReused_iff nodup).mp right.reused, fun held => ?_⟩, distinct,
    fun k => ?_⟩
  · refine ⟨distinct, (fdsReused_iff nodup).mpr held, fun k most => ?_⟩
    have few := roundUp4_mono (held.peak nodup most)
    omega
  · rw [size]
    unfold roundUp4
    omega

/-- What `proc_init` leaves of a process. -/
def emptyFds : Process := ⟨0, [false, false, false, false], 0, false, 0⟩

theorem fdTable_right_freed : ∃ proc : Process,
    Run (fun s call t => fdCall s call = some t) emptyFds [.new 0, .new 1, .new 2, .free 1] proc ∧
      FdTableRight [.new 0, .new 1, .new 2, .free 1] proc.fds.length := by
  have run : Run (fun s call t => fdCall s call = some t) emptyFds
      [.new 0, .new 1, .new 2, .free 1] ⟨0, [true, false, true, false], 3, false, 0⟩ :=
    Run.of_foldlM fdCall rfl
  refine ⟨_, run, (fdTable_right_iff emptyFds _ _ rfl run).1.mpr fun before fd after split => ?_⟩
  rcases before with _ | ⟨first, _ | ⟨second, _ | ⟨third, _ | ⟨last, before⟩⟩⟩⟩
  · exact nofun
  · cases split
    simp [newFds, fdsInUse, fdsInUseAfter]
  · cases split
    simp [newFds, fdsInUse, fdsInUseAfter]
  · cases split
  · have rest := (List.cons.inj (List.cons.inj (List.cons.inj (List.cons.inj split).2).2).2).2
    exact absurd rest.symm (List.append_ne_nil_of_right_ne_nil _ (List.cons_ne_nil _ _))

/-- A file that is opened and closed, again and again. -/
def reopened : List FdCall :=
  [.new 0, .free 0, .new 1, .free 1, .new 2, .free 2, .new 3, .free 3, .new 4]

/-- With no more than one descriptor in use the table grows to eight. -/
theorem not_fdTableRight_reopened : ∃ proc : Process,
    Run (fun s call t => fdCall s call = some t) emptyFds reopened proc ∧ AtMostInUse 1 reopened ∧
      proc.fds.length = 8 ∧ ¬ FdTableRight reopened proc.fds.length := by
  have run : Run (fun s call t => fdCall s call = some t) emptyFds reopened
      ⟨0, [false, false, false, false, true, false, false, false], 5, false, 0⟩ :=
    Run.of_foldlM fdCall rfl
  have few : AtMostInUse 1 reopened := by
    intro before after split
    have part : before = reopened.take before.length := by rw [split, List.take_left']; rfl
    have short : before.length ≤ reopened.length := by
      rw [split, List.length_append]
      exact Nat.le_add_right _ _
    have each : ∀ n ≤ reopened.length, (fdsInUse (reopened.take n)).length ≤ 1 := by decide
    rw [part]
    exact each _ short
  exact ⟨_, run, few, rfl, fun right => absurd (right.bounded 1 few) (by decide)⟩

end Dxgmx
