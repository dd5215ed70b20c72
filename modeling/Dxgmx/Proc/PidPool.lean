import Dxgmx.Proc.ProcTable
import Dxgmx.Proc.DescriptorIsolation

open Library

namespace Dxgmx

variable {μ : Type} {sys sys' : System μ} {fs : FileSystems μ} {proc proc' : Process}
variable {mem : SpawnMem} {path : Ptr} {pid : Pid} {st : Int} {idx : Nat}

section Pids

/-- The calls that a spawn makes for another process do not change which process that is. -/
theorem vfsOpenVnode_pid (openMem : OpenMem) (vnode : VirtualNodeRef) (flags : BitVec 32)
    (vfs : Vfs μ) : (vfsOpenVnode fs openMem vnode flags proc vfs).2.1.pid = proc.pid := by
  have kept := procNewFd_pid openMem.fds proc
  unfold vfsOpenVnode
  dsimp only
  split
  · exact kept
  · split
    · rw [procFreeFd_pid]
      exact kept
    · split
      · rw [procFreeFd_pid]
        exact kept
      · exact kept

theorem vfsOpen_pid {openMem : OpenMem} {flags mode : BitVec 32} {vfs vfs' : Vfs μ}
    (h : vfsOpen fs openMem path flags mode proc vfs = .ok (st, proc', vfs')) :
    proc'.pid = proc.pid := by
  unfold vfsOpen at h
  split at h
  · cases h
    rfl
  · split at h
    · cases h
      rfl
    · split at h
      · rename_i vnode world _
        have kept : (vfsOpenVnode fs openMem vnode flags proc { vfs with world := world }).2.1.pid =
          proc.pid := vfsOpenVnode_pid openMem vnode flags _
        rw [Except.ok.inj h] at kept
        exact kept
      · split at h
        · cases h
          rfl
        · split at h
          · cases h
            rfl
          · split at h
            · cases h
              rfl
            · split at h <;> cases h
              rfl

theorem vfsClose_pid {fd : Fd} {vfs vfs' : Vfs μ}
    (h : vfsClose fs fd proc vfs = .ok (st, proc', vfs')) : proc'.pid = proc.pid := by
  unfold vfsClose at h
  split at h
  · cases h
    rfl
  · split at h
    · cases h
      rfl
    · split at h
      · cases h
      · cases h
        exact procFreeFd_pid fd proc

theorem procLoadFromFile_pid {vfs vfs' : Vfs μ}
    (h : procLoadFromFile fs mem path proc vfs = .ok (st, proc', vfs')) : proc'.pid = proc.pid := by
  obtain ⟨⟨fd, opener, opened⟩, first, h⟩ := Exec.bind_ok.mp h
  have same := vfsOpen_pid first
  dsimp only at h
  split at h
  · cases h
    exact same
  · obtain ⟨⟨_, closer, closed⟩, second, h⟩ := Exec.bind_ok.mp h
    cases h
    exact (vfsClose_pid second).trans same

theorem procCreateAddressSpace_pid {vfs vfs' : Vfs μ}
    (h : procCreateAddressSpace fs mem path proc vfs = .ok (st, proc', vfs')) :
    proc'.pid = proc.pid := by
  unfold procCreateAddressSpace at h
  split at h
  · cases h
    rfl
  · split at h
    · cases h
      rfl
    · obtain ⟨⟨loaded, loader, _⟩, first, h⟩ := Exec.bind_ok.mp h
      have same := procLoadFromFile_pid first
      dsimp only at h
      split at h
      · cases h
        exact same
      · split at h <;> cases h <;> exact same

end Pids

section Table

def System.table (sys : System μ) : ProcTable :=
  ⟨sys.procs.map (Option.map Process.pid), sys.lastFreeProcIdx, sys.procCount⟩

theorem procmAvailablePidLoop_eq {start idx : Nat} (passed : start ≤ idx)
    (procs : List (Option Process)) :
    procmAvailablePidLoop start idx procs = some (idx + procs.findIdx Option.isNone) := by
  induction procs generalizing idx with
  | nil => rfl
  | cons slot rest ih =>
    cases slot with
    | none => rfl
    | some proc =>
      rw [procmAvailablePidLoop, if_neg (by omega), ih (by omega), List.findIdx_cons]
      show some _ = some (idx + (rest.findIdx Option.isNone + 1))
      congr 1
      omega

theorem procmAvailablePid_eq (sys : System μ) :
    procmAvailablePid sys = ((BitVec.ofNat 32 (sys.table.free + 1)).toInt,
      { sys with lastFreeProcIdx := sys.table.free + 1 }) := by
  have search : (sys.table.slots.drop sys.table.cursor).findIdx Option.isNone =
      (sys.procs.drop sys.lastFreeProcIdx).findIdx Option.isNone := by
    show ((sys.procs.map (Option.map Process.pid)).drop sys.lastFreeProcIdx).findIdx _ = _
    rw [← List.map_drop, List.findIdx_map]
    congr 1
    funext slot
    cases slot <;> rfl
  unfold procmAvailablePid
  dsimp only
  rw [procmAvailablePidLoop_eq (Nat.le_refl _), ← search]
  rfl

/-- The pool does what the table of pids says, whatever else its processes hold. -/
theorem procmEnroll_table (mem : SpawnMem) (newproc : Process) (sys : System μ) :
    (fun result => (result.1, System.table result.2)) <$> procmEnroll mem newproc sys =
      sys.table.enroll mem.pool := by
  have length : sys.table.slots.length = sys.procs.length := List.length_map _
  unfold procmEnroll ProcTable.enroll
  rw [procmAvailablePid_eq]
  dsimp only
  by_cases negative : (BitVec.ofNat 32 (sys.table.free + 1)).toInt ≤ 0
  · rw [if_pos negative, if_pos negative]
    rfl
  · rw [if_neg negative, if_neg negative, BitVec.ofInt_toInt]
    unfold procmAddProcToPool
    dsimp only
    rw [length]
    by_cases outside : sys.procs.length < pidIdx (BitVec.ofNat 32 (sys.table.free + 1))
    · rw [if_pos outside, if_pos outside]
      rfl
    · rw [if_neg outside, if_neg outside]
      have measured : sys.table.Refused mem.pool ↔
          mem.pool = false ∨ 2 ^ 32 ≤ (sys.procs.length + 16) * 4 := by
        unfold ProcTable.Refused
        rw [length]
      by_cases refused : pidIdx (BitVec.ofNat 32 (sys.table.free + 1)) = sys.procs.length ∧
          sys.table.Refused mem.pool
      · rw [if_pos ⟨refused.1, measured.mp refused.2⟩, if_pos refused]
        rfl
      · rw [if_neg fun both => refused ⟨both.1, measured.mpr both.2⟩, if_neg refused]
        show Except.ok ((BitVec.ofNat 32 (sys.table.free + 1)).toInt, ProcTable.mk (List.map _ _) _ _)
          = _
        rw [List.map_set]
        by_cases full : pidIdx (BitVec.ofNat 32 (sys.table.free + 1)) = sys.procs.length
        · rw [if_pos full, if_pos full, List.map_append, List.map_replicate]
          rfl
        · rw [if_neg full, if_neg full]
          rfl


theorem table_slot {slot : Option Process} (here : sys.procs[idx]? = some slot) :
    sys.table.slots[idx]? = some (slot.map Process.pid) := by
  show (sys.procs.map _)[idx]? = _
  rw [List.getElem?_map, here]
  rfl

/-- The processes of the pool stand where their pids say, and the one that acts for the kernel is
    not in the pool. -/
structure System.Placed (sys : System μ) : Prop where
  slots : ∀ idx pid, sys.table.slots[idx]? = some (some pid) → pid.toNat = idx + 1
  kernel : sys.kernelProc.pid = 0

/-- Every process of the pool has a slot of its own, and the one that acts for the kernel none. -/
structure System.PoolSound (sys : System μ) : Prop where
  table : sys.table.Sound
  kernel : sys.kernelProc.pid = 0

theorem System.PoolSound.placed (sound : sys.PoolSound) : sys.Placed :=
  ⟨sound.table.placed, sound.kernel⟩

theorem System.Placed.proc_pid (placed : sys.Placed) (acts : sys.proc pid = some proc) :
    proc.pid = pid ∧ (pid ≠ 0 → sys.procs[pidIdx pid]? = some (some proc)) := by
  unfold System.proc at acts
  by_cases kernel : pid = 0
  · rw [if_pos kernel] at acts
    cases acts
    exact ⟨placed.kernel.trans kernel.symm, fun other => absurd kernel other⟩
  · rw [if_neg kernel, List.getD_eq_getElem?_getD] at acts
    have here : sys.procs[pidIdx pid]? = some (some proc) := by
      cases slot : sys.procs[pidIdx pid]? with
      | none =>
        rw [slot] at acts
        cases acts
      | some found =>
        rw [slot] at acts
        exact congrArg some acts
    refine ⟨?_, fun _ => here⟩
    have place := placed.slots _ _ (table_slot here)
    apply BitVec.eq_of_toNat_eq
    rw [place]
    unfold pidIdx
    have positive : 1 ≤ pid.toNat := Nat.pos_of_ne_zero fun zero => kernel (BitVec.eq_of_toNat_eq zero)
    rw [BitVec.toNat_sub_of_le (by rw [BitVec.le_def]; exact positive)]
    show pid.toNat - 1 + 1 = _
    omega

/-- A process that acts may change itself, but not where it stands. -/
theorem System.Placed.setProc (placed : sys.Placed) (acts : sys.proc pid = some proc)
    (same : proc'.pid = proc.pid) :
    (sys.setProc proc').table = sys.table ∧ (sys.setProc proc').kernelProc.pid = 0 := by
  obtain ⟨rfl, slot⟩ := placed.proc_pid acts
  unfold System.setProc
  by_cases kernel : proc'.pid = 0
  · rw [if_pos kernel]
    exact ⟨rfl, kernel⟩
  · rw [if_neg kernel]
    have here := slot (same ▸ kernel)
    refine ⟨?_, placed.kernel⟩
    show ProcTable.mk ((sys.procs.set _ _).map _) _ _ = _
    rw [List.map_set, Option.map_some, same]
    have place : sys.table.slots[pidIdx proc.pid]? = some (some proc.pid) := table_slot here
    have unchanged : sys.table.slots.set (pidIdx proc.pid) (some proc.pid) = sys.table.slots := by
      apply List.ext_getElem?
      intro idx
      by_cases there : pidIdx proc.pid = idx
      · rw [List.getElem?_set, if_pos there, if_pos (List.getElem?_eq_some_iff.mp place).1,
          ← there, place]
      · rw [List.getElem?_set, if_neg there]
    show ProcTable.mk (sys.table.slots.set _ _) _ _ = _
    rw [unchanged]
    rfl

end Table

section Calls

/-- A spawn gets as far as the pool. -/
def SpawnReady (fs : FileSystems μ) (mem : SpawnMem) (path : Ptr) (proc : Process) (vfs : Vfs μ) :
    Prop :=
  mem.newproc = true ∧ (procInit mem.fds).isSome ∧ mem.kstack = true ∧ mem.path = true ∧
    ∃ st proc' vfs', procCreateAddressSpace fs mem path proc vfs = .ok (st, proc', vfs') ∧ 0 ≤ st

/-- A spawn comes to the end of the pool and there is no memory for a longer one. -/
def GrowthRefused (fs : FileSystems μ) (mem : SpawnMem) (path : Ptr) (proc : Process)
    (sys : System μ) : Prop :=
  SpawnReady fs mem path proc sys.vfs ∧ sys.table.free = sys.table.slots.length ∧
    sys.table.Refused mem.pool

/-- What a spawn does to the pool: it fails before it comes to it, or it enrolls a process. -/
theorem procmSpawnProc_cases (placed : sys.Placed) (acts : sys.proc pid = some proc)
    (h : procmSpawnProc fs mem path proc sys = .ok (st, sys')) :
    (st < 0 ∧ sys'.table = sys.table ∧ sys'.kernelProc.pid = 0) ∨
      ∃ newproc ready, SpawnReady fs mem path proc sys.vfs ∧ ready.table = sys.table ∧
        ready.kernelProc.pid = 0 ∧ procmEnroll mem newproc ready = .ok (st, sys') := by
  unfold procmSpawnProc at h
  split at h
  · cases h
    exact .inl ⟨by decide, rfl, placed.kernel⟩
  · rename_i newproc init
    obtain ⟨⟨created, actor, vfs⟩, first, h⟩ := Exec.bind_ok.mp h
    have after : System.Placed { sys with vfs := vfs } := ⟨placed.slots, placed.kernel⟩
    obtain ⟨table, kernel⟩ := after.setProc acts (procCreateAddressSpace_pid first)
    dsimp only at h
    split at h
    · rename_i negative
      cases h
      exact .inl ⟨negative, table, kernel⟩
    · rename_i positive
      split at h
      · cases h
        exact .inl ⟨by decide, table, kernel⟩
      · rename_i kstack
        split at h
        · cases h
          exact .inl ⟨by decide, table, kernel⟩
        · rename_i named
          have new : mem.newproc = true ∧ procInit mem.fds = some newproc := by
            by_cases new : mem.newproc = true
            · rw [if_pos new] at init
              exact ⟨new, init⟩
            · rw [if_neg new] at init
              cases init
          refine .inr ⟨newproc, _, ⟨new.1, by rw [new.2]; rfl, by simpa using kstack,
            by simpa using named, created, actor, vfs, first, by omega⟩, table, kernel, h⟩

theorem procmEnroll_ok {newproc : Process} (h : procmEnroll mem newproc sys = .ok (st, sys')) :
    sys.table.enroll mem.pool = .ok (st, sys'.table) := by
  rw [← procmEnroll_table mem newproc, h]
  rfl

theorem procmEnroll_kernel {newproc : Process} (h : procmEnroll mem newproc sys = .ok (st, sys')) :
    sys'.kernelProc = sys.kernelProc := by
  unfold procmEnroll at h
  rw [procmAvailablePid_eq] at h
  dsimp only at h
  split at h
  · cases h
    rfl
  · obtain ⟨⟨added, pool⟩, first, h⟩ := Exec.bind_ok.mp h
    have kept : pool.kernelProc = sys.kernelProc := by
      unfold procmAddProcToPool at first
      dsimp only at first
      split at first
      · cases first
      · split at first <;> cases first <;> rfl
    dsimp only at h
    split at h <;> cases h <;> exact kept


/-- A spawn that finds the memory to grow the pool keeps it, and one that fails leaves it. -/
theorem System.PoolSound.spawn (sound : sys.PoolSound) (acts : sys.proc pid = some proc)
    (grows : ¬ GrowthRefused fs mem path proc sys)
    (h : procmSpawnProc fs mem path proc sys = .ok (st, sys')) :
    sys'.PoolSound ∧ (st < 0 → sys'.table = sys.table) := by
  rcases procmSpawnProc_cases sound.placed acts h with ⟨-, table, kernel⟩ |
    ⟨newproc, ready, isReady, table, kernel, enrolled⟩
  · exact ⟨⟨by rw [table]; exact sound.table, kernel⟩, fun _ => table⟩
  · have room : ¬ (ready.table.free = ready.table.slots.length ∧ ready.table.Refused mem.pool) := by
      rw [table]
      exact fun refused => grows ⟨isReady, refused⟩
    have before : ready.table.Sound := by
      rw [table]
      exact sound.table
    obtain ⟨positive, after⟩ := before.enroll (procmEnroll_ok enrolled) room
    exact ⟨⟨after, (congrArg Process.pid (procmEnroll_kernel enrolled)).trans kernel⟩,
      fun negative => by omega⟩

theorem procmKill_table (proc : Process) (sys : System μ) :
    (procmKill proc sys).table = sys.table.kill proc.pid := by
  show ProcTable.mk ((sys.procs.set _ _).map _) _ _ = _
  rw [List.map_set]
  rfl

theorem System.PoolSound.kill (sound : sys.PoolSound) (live : some proc ∈ sys.procs) :
    (procmKill proc sys).PoolSound := by
  obtain ⟨idx, here⟩ := List.mem_iff_getElem?.mp live
  refine ⟨?_, sound.kernel⟩
  rw [procmKill_table]
  exact sound.table.kill (table_slot here)

end Calls

section Runs

inductive PoolCall
  | spawn (mem : SpawnMem) (path : Ptr) (acting : Pid)
  | kill (pid : Pid)

/-- A spawn for a process that exists, or a kill of one. -/
inductive PoolStep (fs : FileSystems μ) : System μ → PoolCall → System μ → Prop
  | spawn {sys sys' : System μ} {mem : SpawnMem} {path : Ptr} {acting : Pid} {proc : Process}
      {st : Int} (acts : sys.proc acting = some proc)
      (call : procmSpawnProc fs mem path proc sys = .ok (st, sys')) :
      PoolStep fs sys (.spawn mem path acting) sys'
  | kill {sys : System μ} {proc : Process} (live : some proc ∈ sys.procs) :
      PoolStep fs sys (.kill proc.pid) (procmKill proc sys)

/-- The pool is not refused the memory that it has to grow by. -/
def PoolCall.Grows (fs : FileSystems μ) (sys : System μ) : PoolCall → Prop
  | spawn mem path acting =>
    ∀ proc, sys.proc acting = some proc → ¬ GrowthRefused fs mem path proc sys
  | kill _ => True

def System.live (sys : System μ) : List Process := sys.procs.filterMap id

/-- Pids name the processes of the pool, and the next process finds a place. -/
structure System.PidsRight (sys : System μ) : Prop where
  distinct : sys.live.Pairwise fun first second => first.pid ≠ second.pid
  positive : ∀ proc ∈ sys.live, 0 < proc.pid.toInt
  slot : ∀ proc ∈ sys.live, sys.procs[pidIdx proc.pid]? = some (some proc)
  only : ∀ idx proc, sys.procs[idx]? = some (some proc) → idx = pidIdx proc.pid
  count : sys.procCount = sys.live.length
  asserts : ∀ mem newproc, procmEnroll mem newproc sys ≠ .error .panic

/-- A spawn that fails leaves the pool, and what it answers to later ones. -/
def FailedSpawnsLeave (fs : FileSystems μ) (sys : System μ) : Prop :=
  ∀ mem path acting proc st sys', sys.proc acting = some proc →
    ¬ GrowthRefused fs mem path proc sys →
    procmSpawnProc fs mem path proc sys = .ok (st, sys') → st < 0 →
    sys'.table = sys.table ∧ ∀ again newproc,
      Prod.fst <$> procmEnroll again newproc sys' = Prod.fst <$> procmEnroll again newproc sys

theorem mem_live : proc ∈ sys.live ↔ some proc ∈ sys.procs := by
  unfold System.live
  rw [List.mem_filterMap]
  constructor
  · rintro ⟨slot, member, rfl⟩
    exact member
  · exact fun member => ⟨_, member, rfl⟩

theorem System.PoolSound.pidsRight (sound : sys.PoolSound) : sys.PidsRight := by
  have place : ∀ idx proc, sys.procs[idx]? = some (some proc) → pidIdx proc.pid = idx :=
    fun idx proc here => sound.table.pidIdx (table_slot here)
  refine ⟨?_, ?_, ?_, fun idx proc here => (place idx proc here).symm, ?_, ?_⟩
  · unfold System.live
    rw [List.pairwise_filterMap, List.pairwise_iff_getElem]
    rintro i j inside inside' less first isFirst second isSecond same
    have atFirst := place i first (by rw [List.getElem?_eq_getElem inside]; exact congrArg some isFirst)
    have atSecond := place j second
      (by rw [List.getElem?_eq_getElem inside']; exact congrArg some isSecond)
    rw [same, atSecond] at atFirst
    omega
  · intro proc member
    obtain ⟨idx, here⟩ := List.mem_iff_getElem?.mp (mem_live.mp member)
    have placed := sound.table.placed idx _ (table_slot here)
    have inside := (List.getElem?_eq_some_iff.mp (table_slot here)).1
    have short := sound.table.short
    rw [BitVec.toInt_eq_toNat_of_lt (by omega), placed]
    omega
  · intro proc member
    obtain ⟨idx, here⟩ := List.mem_iff_getElem?.mp (mem_live.mp member)
    rw [place idx proc here, here]
  · have counted : sys.procCount = (sys.procs.map (Option.map Process.pid)).countP Option.isSome :=
      sound.table.counted
    unfold System.live
    rw [counted, List.countP_map, List.length_filterMap_eq_countP]
    congr 1
    funext slot
    cases slot <;> rfl
  · intro mem newproc panics
    have answer := procmEnroll_table mem newproc sys
    rw [panics, sound.table.enroll_eq] at answer
    split at answer <;> cases answer

theorem System.PoolSound.failedSpawnsLeave (sound : sys.PoolSound) : FailedSpawnsLeave fs sys := by
  intro mem path acting proc st sys' acts grows call failed
  have table := (sound.spawn acts grows call).2 failed
  refine ⟨table, fun again newproc => ?_⟩
  have answers : ∀ sys : System μ, Prod.fst <$> procmEnroll again newproc sys =
      Prod.fst <$> sys.table.enroll again.pool := by
    intro sys
    rw [← procmEnroll_table again newproc sys]
    cases procmEnroll again newproc sys <;> rfl
  rw [answers, answers, table]

theorem boot_poolSound (chew : BitVec 64 → Except Int (List (BitVec 32))) (world : μ) :
    (System.boot chew world).PoolSound := by
  refine ⟨⟨?_, rfl, Nat.zero_le _, show 1 * 4 < 2 ^ 32 by decide⟩, rfl⟩
  intro idx pid here
  cases idx <;> cases here

theorem poolStep_sound {call : PoolCall} (step : PoolStep fs sys call sys')
    (grows : call.Grows fs sys) (sound : sys.PoolSound) : sys'.PoolSound := by
  cases step with
  | spawn acts spawned => exact (sound.spawn acts (grows _ acts) spawned).1
  | kill live => exact sound.kill live

/-- In every run in which the pool is never refused the memory to grow, its pids are right. -/
theorem pids_right (fs : FileSystems μ) (chew : BitVec 64 → Except Int (List (BitVec 32)))
    (world : μ) (calls : List PoolCall) (sys : System μ)
    (run : Run (fun sys call sys' => PoolStep fs sys call sys' ∧ call.Grows fs sys)
      (System.boot chew world) calls sys) : sys.PidsRight ∧ FailedSpawnsLeave fs sys := by
  have sound := run.invariant System.PoolSound
    (fun _ _ _ step => poolStep_sound step.1 step.2) (boot_poolSound chew world)
  exact ⟨sound.pidsRight, sound.failedSpawnsLeave⟩


def System.poolNext (fs : FileSystems μ) (sys : System μ) : PoolCall → Option (System μ)
  | .spawn mem path acting =>
    match sys.proc acting with
    | none => none
    | some proc => (procmSpawnProc fs mem path proc sys).toOption.map Prod.snd
  | .kill pid =>
    match sys.procs.getD (pidIdx pid) none with
    | none => none
    | some proc => if proc.pid = pid then some (procmKill proc sys) else none

theorem poolStep_of_next {call : PoolCall} (next : sys.poolNext fs call = some sys') :
    PoolStep fs sys call sys' := by
  cases call with
  | spawn mem path acting =>
    cases acts : sys.proc acting with
    | none =>
      simp only [System.poolNext, acts] at next
      cases next
    | some proc =>
      simp only [System.poolNext, acts] at next
      obtain ⟨⟨st, after⟩, done, rfl⟩ := Option.map_eq_some_iff.mp next
      cases result : procmSpawnProc fs mem path proc sys with
      | error stop =>
        rw [result] at done
        cases done
      | ok pair =>
        rw [result] at done
        cases done
        exact .spawn acts result
  | kill pid =>
    cases here : sys.procs.getD (pidIdx pid) none with
    | none =>
      simp only [System.poolNext, here] at next
      cases next
    | some proc =>
      simp only [System.poolNext, here, Option.ite_none_right_eq_some] at next
      obtain ⟨rfl, same⟩ := next
      cases same
      apply PoolStep.kill
      apply List.mem_iff_getElem?.mpr
      refine ⟨pidIdx proc.pid, ?_⟩
      rw [List.getD_eq_getElem?_getD] at here
      cases slot : sys.procs[pidIdx proc.pid]? with
      | none =>
        rw [slot] at here
        cases here
      | some found =>
        rw [slot] at here
        exact congrArg some here

/-- Enough for `Grows`: there is memory for a longer pool. -/
def PoolCall.Affords (sys : System μ) : PoolCall → Prop
  | spawn mem _ _ => ¬ sys.table.Refused mem.pool
  | kill _ => True

instance (sys : System μ) : (call : PoolCall) → Decidable (call.Affords sys)
  | .spawn mem _ _ => inferInstanceAs (Decidable (¬ sys.table.Refused mem.pool))
  | .kill _ => inferInstanceAs (Decidable True)

theorem PoolCall.Affords.grows {call : PoolCall} (affords : call.Affords sys) :
    call.Grows fs sys := by
  cases call with
  | spawn mem path acting => exact fun proc _ refused => affords refused.2.2
  | kill pid => trivial

theorem pids_right_respawned :
    ∃ sys, Run (fun sys call sys' => PoolStep oneFile sys call sys' ∧ call.Grows oneFile sys)
      (System.boot sha1OfKeys ()) [.spawn plentiful 0 0, .spawn plentiful 0 1, .kill 1,
        .spawn plentiful 0 2] sys ∧ sys.PidsRight ∧ FailedSpawnsLeave oneFile sys := by
  obtain ⟨sys, run⟩ := Run.of_replay (System.poolNext oneFile) (fun sys call => call.Affords sys)
    (System.boot sha1OfKeys ()) [.spawn plentiful 0 0, .spawn plentiful 0 1, .kill 1,
      .spawn plentiful 0 2] (by decide)
  have steps := run.mono fun sys call sys' step =>
    show PoolStep oneFile sys call sys' ∧ call.Grows oneFile sys from
      ⟨poolStep_of_next step.1, step.2.grows⟩
  exact ⟨sys, steps, pids_right oneFile sha1OfKeys () _ sys steps⟩

/-- There is memory for the process, but not for a longer pool. -/
def poolRefused : SpawnMem := { plentiful with pool := false }

/-- The second process finds no memory for a longer pool, and the third one runs into the
    assertion. -/
theorem pids_wrong_refused :
    ∃ sys, Run (PoolStep oneFile) (System.boot sha1OfKeys ())
      [.spawn plentiful 0 0, .spawn poolRefused 0 1] sys ∧
      ¬ sys.PidsRight := by
  have done : ([.spawn plentiful 0 0, .spawn poolRefused 0 1].foldlM
      (System.poolNext oneFile) (System.boot sha1OfKeys ())).map System.table =
      some ⟨[some 1], 2, 1⟩ := by decide
  obtain ⟨sys, ran, table⟩ := Option.map_eq_some_iff.mp done
  have run := (Run.of_foldlM (System.poolNext oneFile) ran).mono fun _ _ _ => poolStep_of_next
  refine ⟨sys, run, fun right => ?_⟩
  have panics : sys.table.enroll plentiful.pool = .error .panic := by
    rw [table]
    decide
  rw [← procmEnroll_table plentiful ⟨0, [], 0, false, 0⟩] at panics
  cases enrolled : procmEnroll plentiful ⟨0, [], 0, false, 0⟩ sys with
  | error stop =>
    rw [enrolled] at panics
    cases panics
    exact right.asserts _ _ enrolled
  | ok result =>
    rw [enrolled] at panics
    cases panics

end Runs

end Dxgmx
