import Dxgmx.Proc.PidPool

open Library

namespace Dxgmx

variable {μ : Type}

/-- The pool and the scheduler's place in it, `g_current_proc_idx`. -/
structure Ringsched (μ : Type) where
  sys : System μ
  currentProcIdx : Nat

def ringschedNextLoop (procs : List (Option Process)) : (fuel newidx : Nat) → Exec (Nat × Process)
  | 0, _ => .error .fuel
  | fuel + 1, newidx =>
    match procs[newidx]? with
    | none => ringschedNextLoop procs fuel 0
    | some none => ringschedNextLoop procs fuel (newidx + 1)
    | some (some proc) => .ok (newidx, proc)

def ringschedNextProc (fuel : Nat) (sched : Ringsched μ) : Exec (Process × Ringsched μ) := do
  let (newidx, proc) ← ringschedNextLoop sched.sys.procs fuel (sched.currentProcIdx + 1)
  pure (proc, { sched with currentProcIdx := newidx })

def ringschedCurrentProc (sched : Ringsched μ) : Option Process :=
  sched.sys.procs.getD sched.currentProcIdx none

/-- A scheduler in the middle of `procm_sched_yield`. `passed` and `killed` are ghosts: what
    `next_proc` returned and what was freed. -/
structure Yield (μ : Type) where
  sched : Ringsched μ
  passed : List Process
  killed : List Process

/-- The end of `procm_sched_yield`: the call of `proc_switch`, or none. -/
inductive YieldEnd
  | switch (next : Process)
  | stop (stop : Stop)
  deriving DecidableEq

def procmSchedYieldLoop (fuel : Nat) (current : Process) :
    (rounds : Nat) → Yield μ → YieldEnd × Yield μ
  | 0, yield => (.stop .fuel, yield)
  | rounds + 1, yield =>
    match ringschedNextProc fuel yield.sched with
    | .error stop => (.stop stop, yield)
    | .ok (next, sched) =>
      let yield := { yield with sched := sched, passed := yield.passed ++ [next] }
      if next.zombie = false then (.switch next, yield)
      else
        match procmTryKillProc next current sched.sys with
        | .error stop => (.stop stop, yield)
        | .ok (st, sys) =>
          let killed := if st = 0 then yield.killed ++ [next] else yield.killed
          procmSchedYieldLoop fuel current rounds
            { yield with sched := { sched with sys := sys }, killed := killed }

/-- The state of the current process, which is not modelled, becomes `PROC_YIELDED`. -/
def procmSchedYield (fuel rounds : Nat) (sched : Ringsched μ) : YieldEnd × Yield μ :=
  match ringschedCurrentProc sched with
  | none => (.stop .fault, ⟨sched, [], []⟩)
  | some current => procmSchedYieldLoop fuel current rounds ⟨sched, [], []⟩

section Search

variable {procs : List (Option Process)} {fuel newidx : Nat}

/-- The search goes on to the first process from `newidx` on where there is one. -/
theorem ringschedNextLoop_ahead (ahead : ∃ i proc, newidx ≤ i ∧ procs[i]? = some (some proc))
    (enough : procs.length < fuel + newidx) :
    ∃ i proc, ringschedNextLoop procs fuel newidx = .ok (i, proc) ∧ newidx ≤ i ∧
      procs[i]? = some (some proc) ∧ ∀ j, newidx ≤ j → j < i → procs[j]? = some none := by
  induction fuel generalizing newidx with
  | zero =>
    obtain ⟨i, proc, above, here⟩ := ahead
    have inside := (List.getElem?_eq_some_iff.mp here).1
    omega
  | succ fuel ih =>
    obtain ⟨i, proc, above, here⟩ := ahead
    have inside := (List.getElem?_eq_some_iff.mp here).1
    unfold ringschedNextLoop
    cases slot : procs[newidx]? with
    | none =>
      have outside := List.getElem?_eq_none_iff.mp slot
      omega
    | some occupied =>
      cases occupied with
      | some first => exact ⟨newidx, first, rfl, Nat.le_refl _, slot, fun j low high => by omega⟩
      | none =>
        have later : newidx + 1 ≤ i := by
          apply Nat.lt_of_le_of_ne above
          rintro rfl
          rw [slot] at here
          cases here
        obtain ⟨k, found, search, low, at_k, empty⟩ := ih ⟨i, proc, later, here⟩ (by omega)
        refine ⟨k, found, search, by omega, at_k, fun j low' high => ?_⟩
        by_cases same : j = newidx
        · rw [same, slot]
        · exact empty j (by omega) high

/-- Where there is none ahead, the search starts again at the front. -/
theorem ringschedNextLoop_wrap (none_ahead : ∀ i proc, newidx ≤ i → procs[i]? ≠ some (some proc)) :
    ∃ used ≤ procs.length - newidx + 1, ∀ fuel,
      ringschedNextLoop procs (fuel + used) newidx = ringschedNextLoop procs fuel 0 := by
  generalize left : procs.length - newidx = n
  induction n generalizing newidx with
  | zero =>
    have outside : procs[newidx]? = none := List.getElem?_eq_none (by omega)
    refine ⟨1, by omega, fun fuel => ?_⟩
    rw [ringschedNextLoop, outside]
  | succ n ih =>
    obtain ⟨used, bound, search⟩ := @ih (newidx + 1)
      (fun i proc above => none_ahead i proc (by omega)) (by omega)
    refine ⟨used + 1, by omega, fun fuel => ?_⟩
    rw [← Nat.add_assoc, ringschedNextLoop]
    cases slot : procs[newidx]? with
    | none =>
      have outside := List.getElem?_eq_none_iff.mp slot
      omega
    | some occupied =>
      cases occupied with
      | some first => exact absurd slot (none_ahead newidx first (Nat.le_refl _))
      | none => exact search fuel

/-- A process is found, and it is the one at the cursor only if there is no other. -/
theorem ringschedNextLoop_found {cursor k : Nat} {proc : Process}
    (live : procs[k]? = some (some proc)) (enough : 2 * procs.length + 2 ≤ fuel) :
    ∃ i found, ringschedNextLoop procs fuel (cursor + 1) = .ok (i, found) ∧
      procs[i]? = some (some found) ∧
      (i = cursor → ∀ j other, procs[j]? = some (some other) → j = cursor) := by
  by_cases ahead : ∃ i proc, cursor + 1 ≤ i ∧ procs[i]? = some (some proc)
  · have room : procs.length < fuel + (cursor + 1) := by omega
    obtain ⟨i, found, search, above, here, -⟩ := ringschedNextLoop_ahead ahead room
    exact ⟨i, found, search, here, fun same => by omega⟩
  · have none_ahead : ∀ i proc, cursor + 1 ≤ i → procs[i]? ≠ some (some proc) :=
      fun i proc above here => ahead ⟨i, proc, above, here⟩
    obtain ⟨used, bound, wrap⟩ := ringschedNextLoop_wrap none_ahead
    have room : procs.length < fuel - used + 0 := by omega
    obtain ⟨i, found, search, -, here, before⟩ :=
      ringschedNextLoop_ahead ⟨k, proc, Nat.zero_le k, live⟩ room
    have split : fuel - used + used = fuel := by omega
    refine ⟨i, found, ?_, here, fun same j other there => ?_⟩
    · rw [← split, wrap, search]
    · by_contra different
      rcases Nat.lt_or_gt_of_ne different with less | more
      · have empty := before j (Nat.zero_le j) (by omega)
        rw [there] at empty
        cases empty
      · exact none_ahead j other more there

end Search

section Pool

variable {sys : System μ} {proc : Process} {idx : Nat}

/-- Each process of the pool stands where its pid says, and all of them are counted. -/
structure System.Filled (sys : System μ) : Prop where
  placed : ∀ idx proc, sys.procs[idx]? = some (some proc) → pidIdx proc.pid = idx
  counted : sys.procCount = sys.live.length

theorem System.PoolSound.filled (sound : sys.PoolSound) : sys.Filled :=
  ⟨fun _ _ here => sound.table.pidIdx (table_slot here), sound.pidsRight.count⟩

theorem System.Filled.procs_kill (filled : sys.Filled) (here : sys.procs[idx]? = some (some proc))
    (i : Nat) (other : Process) :
    (procmKill proc sys).procs[i]? = some (some other) ↔
      sys.procs[i]? = some (some other) ∧ other ≠ proc := by
  have inside : idx < sys.procs.length := (List.getElem?_eq_some_iff.mp here).1
  show (sys.procs.set (pidIdx proc.pid) none)[i]? = _ ↔ _
  rw [filled.placed idx proc here, List.getElem?_set]
  by_cases same : idx = i
  · rw [if_pos same, if_pos inside, ← same, here]
    simp [eq_comm]
  · rw [if_neg same]
    apply (and_iff_left_of_imp _).symm
    rintro there rfl
    apply same
    rw [← filled.placed idx other here, filled.placed i other there]

theorem live_length (sys : System μ) : sys.live.length = sys.procs.countP Option.isSome :=
  List.length_filterMap_eq_countP

/-- A process that is killed leaves the others as they are, and there is one less. -/
theorem System.Filled.kill (filled : sys.Filled) (here : sys.procs[idx]? = some (some proc)) :
    (procmKill proc sys).Filled ∧ (procmKill proc sys).live.length + 1 = sys.live.length := by
  have inside : idx < sys.procs.length := (List.getElem?_eq_some_iff.mp here).1
  have used : sys.procs[idx] = some proc := by
    rw [List.getElem?_eq_getElem inside] at here
    exact Option.some.inj here
  have some_live : 0 < sys.procs.countP Option.isSome :=
    List.countP_pos_iff.mpr ⟨some proc, List.mem_of_getElem? here, rfl⟩
  have fewer : (procmKill proc sys).live.length = sys.live.length - 1 := by
    rw [live_length, live_length]
    show (sys.procs.set (pidIdx proc.pid) none).countP _ = _
    rw [filled.placed idx proc here, List.countP_set inside, used]
    rfl
  rw [← live_length] at some_live
  refine ⟨⟨fun i other there => ?_, ?_⟩, by omega⟩
  · exact filled.placed i other ((filled.procs_kill here i other).mp there).1
  · rw [fewer, ← filled.counted]
    rfl

theorem System.Filled.alone (filled : sys.Filled) (here : sys.procs[idx]? = some (some proc))
    (only : ∀ j other, sys.procs[j]? = some (some other) → j = idx) : sys.live.length = 1 := by
  have fewer := (filled.kill here).2
  have nothing : (procmKill proc sys).live = [] := by
    apply List.eq_nil_iff_forall_not_mem.mpr
    intro other member
    obtain ⟨j, there⟩ := List.mem_iff_getElem?.mp (mem_live.mp member)
    obtain ⟨before, different⟩ := (filled.procs_kill here j other).mp there
    rw [only j other before, here] at before
    exact different (Option.some.inj (Option.some.inj before)).symm
  rw [nothing] at fewer
  exact fewer.symm

end Pool

section Yields

variable {before : List (Option Process)} {current : Process} {yield : Yield μ}

/-- What holds whenever the scheduler is asked for the next process. `before` is the pool that the
    yield started with. -/
structure Yield.Sound (before : List (Option Process)) (current : Process) (yield : Yield μ) :
    Prop where
  filled : yield.sched.sys.Filled
  length : yield.sched.sys.procs.length = before.length
  kept : ∀ (idx : Nat) (proc : Process), yield.sched.sys.procs[idx]? = some (some proc) ↔
    before[idx]? = some (some proc) ∧ proc ∉ yield.killed
  running : some current ∈ yield.sched.sys.procs
  reaped : ∀ proc ∈ yield.passed, proc.zombie = true → proc ≠ current → proc ∈ yield.killed
  killed : ∀ proc ∈ yield.killed, proc ∈ yield.passed ∧ proc.zombie = true
  once : yield.killed.Nodup

/-- How a yield may end: in a switch, or in a panic if only the current process is left and it is
    a zombie. -/
structure YieldRight (before : List (Option Process)) (current : Process) (yieldEnd : YieldEnd)
    (yield : Yield μ) : Prop where
  ends : (∃ next, yieldEnd = .switch next ∧ some next ∈ yield.sched.sys.procs ∧
      next.zombie = false) ∨
    yieldEnd = .stop .panic ∧ current.zombie = true ∧ yield.sched.sys.live = [current]
  spared : some current ∈ yield.sched.sys.procs ∧ current ∉ yield.killed
  freed : ∀ proc ∈ yield.passed, proc.zombie = true → proc ≠ current →
    yield.killed.count proc = 1 ∧ some proc ∉ yield.sched.sys.procs
  killed : ∀ proc ∈ yield.killed, proc ∈ yield.passed ∧ proc.zombie = true
  kept : ∀ (idx : Nat) (proc : Process), yield.sched.sys.procs[idx]? = some (some proc) ↔
    before[idx]? = some (some proc) ∧ proc ∉ yield.killed

theorem Yield.Sound.right (sound : yield.Sound before current) {yieldEnd : YieldEnd}
    (ends : (∃ next, yieldEnd = .switch next ∧ some next ∈ yield.sched.sys.procs ∧
      next.zombie = false) ∨
    yieldEnd = .stop .panic ∧ current.zombie = true ∧ yield.sched.sys.live = [current]) :
    YieldRight before current yieldEnd yield := by
  have gone : ∀ proc, some proc ∈ yield.sched.sys.procs → proc ∉ yield.killed := by
    intro proc member
    obtain ⟨idx, here⟩ := List.mem_iff_getElem?.mp member
    exact ((sound.kept idx proc).mp here).2
  refine ⟨ends, ⟨sound.running, gone current sound.running⟩, ?_, sound.killed, sound.kept⟩
  intro proc passed zombie other
  have reaped := sound.reaped proc passed zombie other
  exact ⟨List.count_eq_one_of_mem sound.once reaped, fun member => gone proc member reaped⟩

theorem Yield.Sound.same_pid (sound : yield.Sound before current) {idx : Nat} {next : Process}
    (here : yield.sched.sys.procs[idx]? = some (some next)) (same : current.pid = next.pid) :
    next = current := by
  obtain ⟨place, there⟩ := List.mem_iff_getElem?.mp sound.running
  have isThere := sound.filled.placed place current there
  rw [same, sound.filled.placed idx next here] at isThere
  rw [← isThere, here] at there
  exact Option.some.inj (Option.some.inj there)

theorem Yield.Sound.pass (sound : yield.Sound before current) (idx : Nat) {next : Process}
    (left : next.zombie = true → next = current) :
    Yield.Sound before current { yield with
      sched := { yield.sched with currentProcIdx := idx }, passed := yield.passed ++ [next] } := by
  refine ⟨sound.filled, sound.length, sound.kept, sound.running, ?_, ?_, sound.once⟩
  · intro proc passed zombie other
    rcases List.mem_append.mp passed with passed | last
    · exact sound.reaped proc passed zombie other
    · rw [List.mem_singleton.mp last] at zombie other
      exact absurd (left zombie) other
  · intro proc killed
    have passed := sound.killed proc killed
    exact ⟨List.mem_append_left _ passed.1, passed.2⟩

theorem Yield.Sound.kill (sound : yield.Sound before current) {idx : Nat} {next : Process}
    (here : yield.sched.sys.procs[idx]? = some (some next)) (zombie : next.zombie = true)
    (other : current.pid ≠ next.pid) :
    Yield.Sound before current
      ⟨⟨procmKill next yield.sched.sys, idx⟩, yield.passed ++ [next], yield.killed ++ [next]⟩ := by
  have procs := sound.filled.procs_kill here
  refine ⟨(sound.filled.kill here).1, ?_, ?_, ?_, ?_, ?_, ?_⟩
  · show (yield.sched.sys.procs.set _ _).length = _
    rw [List.length_set]
    exact sound.length
  · intro i proc
    rw [procs, sound.kept, List.mem_append, List.mem_singleton, not_or, and_assoc]
  · obtain ⟨place, there⟩ := List.mem_iff_getElem?.mp sound.running
    have stays := (procs place current).mpr ⟨there, fun same => other (congrArg _ same)⟩
    exact List.mem_of_getElem? stays
  · intro proc passed isZombie another
    rcases List.mem_append.mp passed with passed | last
    · exact List.mem_append_left _ (sound.reaped proc passed isZombie another)
    · exact List.mem_append_right _ last
  · intro proc killed
    rcases List.mem_append.mp killed with killed | last
    · have passed := sound.killed proc killed
      exact ⟨List.mem_append_left _ passed.1, passed.2⟩
    · rw [List.mem_singleton.mp last]
      exact ⟨List.mem_append_right _ (List.mem_singleton_self next), zombie⟩
  · have fresh : next ∉ yield.killed := ((sound.kept idx next).mp here).2
    apply List.nodup_append.mpr
    refine ⟨sound.once, List.nodup_singleton next, fun proc killed last isLast same => ?_⟩
    rw [same, List.mem_singleton.mp isLast] at killed
    exact fresh killed

/-- Two rounds for each process, and one more to get back to the current one. -/
def Yield.left (current : Process) (yield : Yield μ) : Nat :=
  2 * yield.sched.sys.live.length +
    if yield.sched.currentProcIdx = pidIdx current.pid then 0 else 1

theorem Yield.Sound.alone (sound : yield.Sound before current)
    (one : yield.sched.sys.live.length = 1) : yield.sched.sys.live = [current] := by
  obtain ⟨proc, only⟩ := List.length_eq_one_iff.mp one
  have running : current ∈ yield.sched.sys.live := mem_live.mpr sound.running
  rw [only, List.mem_singleton] at running
  rw [only, running]

end Yields

end Dxgmx
