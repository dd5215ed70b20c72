import Dxgmx.Proc.SchedStates

open Library

namespace Dxgmx

variable {μ : Type} {fs : FileSystems μ} {s s' : SchedSystem μ} {pid : Pid}

/-- What holds between two calls, of the process that executes and of the others. -/
structure SchedSystem.Sound (s : SchedSystem μ) (pid : Pid) : Prop where
  held : s.sched.sys.table.Held
  kernel : s.sched.sys.kernelProc.pid = 0
  executes : s.sched.sys.table.slots[s.sched.currentProcIdx]? = some (some pid)
  ran : s.state pid ≠ .neverRan
  others : ∀ other, some other ∈ s.sched.sys.table.slots → other ≠ pid →
    s.state other ≠ .running
  fresh : ∀ other, some other ∈ s.sched.sys.table.slots → s.state other = .neverRan →
    s.entered other = false

section Tables

variable {sys : System μ} {idx : Nat}

theorem slot_table : sys.table.slots[idx]? = some (some pid) ↔
    ∃ proc, sys.procs[idx]? = some (some proc) ∧ proc.pid = pid := by
  show (sys.procs.map _)[idx]? = _ ↔ _
  rw [List.getElem?_map]
  simp

theorem mem_table : some pid ∈ sys.table.slots ↔ ∃ proc ∈ sys.live, proc.pid = pid := by
  simp only [mem_live]
  show some pid ∈ sys.procs.map _ ↔ _
  simp

theorem ProcTable.Held.filled (held : sys.table.Held) : sys.Filled := by
  constructor
  · exact fun idx proc here => held.sound.pidIdx (table_slot here)
  · have counted : sys.procCount = (sys.procs.map (Option.map Process.pid)).countP Option.isSome :=
      held.sound.counted
    rw [counted, live_length, List.countP_map]
    congr 1
    funext slot
    cases slot <;> rfl

theorem ProcTable.Held.killed {proc : Process} (held : sys.table.Held)
    (live : some proc ∈ sys.procs) : (procmKill proc sys).table.Held := by
  rcases List.mem_iff_getElem?.mp live with ⟨idx, here⟩
  rw [procmKill_table]
  exact held.kill (table_slot here)

theorem ProcTable.Held.placed (held : sys.table.Held) (kernel : sys.kernelProc.pid = 0) :
    sys.Placed :=
  ⟨held.sound.placed, kernel⟩

end Tables

section Steps

theorem SchedSystem.Sound.current (sound : s.Sound pid) :
    ∃ current, ringschedCurrentProc s.sched = some current ∧
      s.sched.sys.procs[s.sched.currentProcIdx]? = some (some current) ∧ current.pid = pid ∧
      s.sched.sys.proc pid = some current := by
  rcases slot_table.mp sound.executes with ⟨current, here, rfl⟩
  have place := sound.held.sound.placed _ _ sound.executes
  have acts : s.sched.sys.proc current.pid = some current := by
    unfold System.proc
    rw [if_neg, sound.held.filled.placed _ _ here, List.getD_eq_getElem?_getD, here]
    · rfl
    · intro zero
      rw [zero] at place
      cases place
  refine ⟨current, ?_, here, rfl, acts⟩
  unfold ringschedCurrentProc
  rw [List.getD_eq_getElem?_getD, here]
  rfl

theorem procmSpawnProc_held {sys sys' : System μ} {mem : SpawnMem} {path : Ptr} {proc : Process}
    {st : Int} (held : sys.table.Held) (kernel : sys.kernelProc.pid = 0)
    (acts : sys.proc pid = some proc) (h : procmSpawnProc fs mem path proc sys = .ok (st, sys')) :
    sys'.kernelProc.pid = 0 ∧ sys'.table.Held ∧
      (st ≤ 0 ∧ sys'.table.slots = sys.table.slots ∨
        0 < st ∧ some (BitVec.ofInt 32 st) ∉ sys.table.slots ∧
          ∀ pid, some pid ∈ sys'.table.slots →
            some pid ∈ sys.table.slots ∨ pid = BitVec.ofInt 32 st) ∧
      ∀ (idx : Nat) (pid : Pid), sys.table.slots[idx]? = some (some pid) →
        sys'.table.slots[idx]? = some (some pid) := by
  rcases procmSpawnProc_cases (held.placed kernel) acts h with ⟨failed, table, after⟩ |
    ⟨newproc, ready, -, table, after, enrolled⟩
  · rw [table]
    exact ⟨after, held, .inl ⟨by omega, rfl⟩, fun _ _ here => here⟩
  · have result := procmEnroll_ok enrolled
    rw [table] at result
    exact ⟨(congrArg Process.pid (procmEnroll_kernel enrolled)).trans after, held.enroll result⟩

theorem SchedSystem.Sound.spawn {mem : SpawnMem} {path : Ptr} (sound : s.Sound pid)
    (call : schedSpawn fs mem path s = .ok s') : s'.Sound pid ∧ s'.state pid = s.state pid := by
  rcases sound.current with ⟨current, executes, -, -, acts⟩
  unfold schedSpawn at call
  rw [executes] at call
  rcases Exec.bind_ok.mp call with ⟨⟨st, sys⟩, spawned, rest⟩
  rcases procmSpawnProc_held sound.held sound.kernel acts spawned with ⟨kernel, held, added, kept⟩
  dsimp only at rest
  by_cases failed : st ≤ 0
  · rw [if_pos failed] at rest
    cases rest
    have same : sys.table.slots = s.sched.sys.table.slots := by
      rcases added with ⟨-, same⟩ | ⟨positive, -⟩
      · exact same
      · omega
    exact ⟨⟨held, kernel, kept _ _ sound.executes, sound.ran, by rw [same]; exact sound.others,
      by rw [same]; exact sound.fresh⟩, rfl⟩
  · rw [if_neg failed] at rest
    cases rest
    rcases added with ⟨zero, -⟩ | ⟨-, new, only⟩
    · exact absurd zero failed
    · have differs : ∀ old, some old ∈ s.sched.sys.table.slots → old ≠ BitVec.ofInt 32 st := by
        rintro old member rfl
        exact new member
      have executing := differs pid (List.mem_of_getElem? sound.executes)
      have state := Function.update_of_ne executing ProcessState.neverRan s.state
      refine ⟨⟨held, kernel, kept _ _ sound.executes, ?_, ?_, ?_⟩, state⟩
      · dsimp only
        rw [state]
        exact sound.ran
      · intro other member apart
        dsimp only
        rcases only other member with old | rfl
        · rw [Function.update_of_ne (differs other old)]
          exact sound.others other old apart
        · rw [Function.update_self]
          decide
      · intro other member
        dsimp only
        rcases only other member with old | rfl
        · rw [Function.update_of_ne (differs other old), Function.update_of_ne (differs other old)]
          exact sound.fresh other old
        · intro
          rw [Function.update_self]

theorem SchedSystem.Sound.dying (status : BitVec 32) (sound : s.Sound pid) :
    (s.dying status).Sound pid ∧ (s.dying status).state = s.state := by
  rcases sound.current with ⟨current, executes, -, -, acts⟩
  obtain ⟨table, kernel⟩ := (sound.held.placed sound.kernel).setProc acts
    (show (procmMarkDead status current).pid = current.pid from rfl)
  unfold SchedSystem.dying
  rw [executes]
  refine ⟨⟨?_, kernel, ?_, sound.ran, ?_, ?_⟩, rfl⟩
  · rw [table]
    exact sound.held
  · rw [table]
    exact sound.executes
  · rw [table]
    exact sound.others
  · rw [table]
    exact sound.fresh

theorem SchedSystem.Sound.next {fuel rounds : Nat} {next : Process} (sound : s.Sound pid)
    (call : schedYieldNext fuel rounds s = .ok (next, s')) :
    s'.sched.sys.table.Held ∧ s'.sched.sys.kernelProc.pid = 0 ∧
      s'.sched.sys.table.slots[s'.sched.currentProcIdx]? = some (some next.pid) ∧
      (∀ other, some other ∈ s'.sched.sys.table.slots → some other ∈ s.sched.sys.table.slots) ∧
      s'.state = Function.update s.state pid .yielded ∧ s'.entered = s.entered ∧
      NextLive s.sched.sys.procs s.sched.currentProcIdx s'.sched.currentProcIdx next := by
  rcases sound.current with ⟨current, executes, here, rfl, -⟩
  unfold schedYieldNext at call
  rw [executes] at call
  dsimp only at call
  cases ended : procmSchedYield fuel rounds s.sched with
  | mk yieldEnd yield =>
    rw [ended] at call
    cases yieldEnd with
    | stop stop => cases call
    | switch found =>
      cases call
      unfold procmSchedYield at ended
      rw [executes] at ended
      have inside := (List.getElem?_eq_some_iff.mp here).1
      have start : Yield.Sound s.sched.sys.procs current ⟨s.sched, [], []⟩ :=
        ⟨sound.held.filled, rfl, by simp, List.mem_of_getElem? here, by simp, by simp,
          List.nodup_nil⟩
      have ahead : Yield.Ahead s.sched.sys.procs s.sched.currentProcIdx ⟨s.sched, [], []⟩ :=
        ⟨inside, fun _ _ there _ => there, fun _ _ _ _ => .inl rfl⟩
      rcases procmSchedYieldLoop_switch start ahead inside ended with ⟨after, found, first⟩
      obtain ⟨held, kernel⟩ := procmSchedYieldLoop_keeps
        (fun sys => sys.table.Held ∧ sys.kernelProc.pid = 0)
        (fun sys proc good live => ⟨good.1.killed live, good.2⟩) ⟨sound.held, sound.kernel⟩ ended
      refine ⟨held, kernel, slot_table.mpr ⟨next, found, rfl⟩, ?_, rfl, rfl, first⟩
      intro other member
      rcases List.mem_iff_getElem?.mp member with ⟨idx, there⟩
      rcases slot_table.mp there with ⟨proc, slot, rfl⟩
      exact List.mem_of_getElem? (table_slot ((after.kept idx proc).mp slot).1)

theorem SchedSystem.Sound.switchesRight (sound : s.Sound pid) : s.SwitchesRight := by
  intro fuel rounds next s' call
  rcases sound.next call with ⟨-, -, here, kept, state, entered, -⟩
  have member := kept _ (List.mem_of_getElem? here)
  rw [state, entered]
  by_cases same : next.pid = pid
  · rw [same, Function.update_self]
    exact ⟨by decide, nofun⟩
  · rw [Function.update_of_ne same]
    exact ⟨sound.others _ member same, sound.fresh _ member⟩

theorem SchedSystem.Sound.alone (sound : s.Sound pid) :
    ∃ current, s.Alone current ∧ current.pid = pid := by
  rcases sound.current with ⟨current, executes, -, rfl, -⟩
  refine ⟨current, ⟨executes, ?_, sound.switchesRight, ?_⟩, rfl⟩
  · exact fun other live apart => sound.others _ (mem_table.mpr ⟨other, live, rfl⟩) apart
  · exact fun status => (sound.dying status).1.switchesRight

/-- The process that a yield switches to executes as a running one if it never ran before. -/
theorem SchedSystem.Sound.yield {fuel rounds : Nat} (sound : s.Sound pid)
    (call : schedYield fuel rounds s = .ok s') :
    ∃ next, s'.Sound next ∧ (s'.state next = .running ↔ s.NextIsNew) := by
  rcases Exec.bind_ok.mp call with ⟨⟨next, mid⟩, yielded, switched⟩
  rcases sound.switchesRight _ _ _ _ yielded with ⟨notRunning, new⟩
  rcases sound.next yielded with ⟨held, kernel, here, kept, state, entered, first⟩
  have isNew : s.NextIsNew ↔ mid.state next.pid = .neverRan := by
    have only : s.NextIsNew ↔ s.state next.pid = .neverRan := by
      rcases sound.current with ⟨current, -, there, -, -⟩
      have inside := (List.getElem?_eq_some_iff.mp there).1
      constructor
      · exact fun all => all _ _ first
      · intro never idx other ahead
        rw [first.unique ahead inside]
        exact never
    rw [only, state]
    by_cases same : next.pid = pid
    · rw [same, Function.update_self]
      exact ⟨fun never => absurd never sound.ran, nofun⟩
    · rw [Function.update_of_ne same]
  have others : ∀ other, some other ∈ mid.sched.sys.table.slots → mid.state other ≠ .running := by
    intro other member
    rw [state]
    by_cases same : other = pid
    · rw [same, Function.update_self]
      decide
    · rw [Function.update_of_ne same]
      exact sound.others other (kept other member) same
  have fresh : ∀ other, some other ∈ mid.sched.sys.table.slots → mid.state other = .neverRan →
      mid.entered other = false := by
    intro other member
    rw [state, entered]
    by_cases same : other = pid
    · rw [same, Function.update_self]
      exact nofun
    · rw [Function.update_of_ne same]
      exact sound.fresh other (kept other member)
  unfold procSwitch at switched
  dsimp only at switched
  rw [if_neg notRunning] at switched
  refine ⟨next.pid, ?_⟩
  rw [isNew]
  by_cases never : mid.state next.pid = .neverRan
  · rw [if_pos never] at switched
    cases switched
    have running : (procEnterInitial next.pid mid).state next.pid = .running :=
      Function.update_self _ _ _
    have state' : ∀ other, other ≠ next.pid →
        (procEnterInitial next.pid mid).state other = mid.state other :=
      fun other apart => Function.update_of_ne apart _ _
    have entered' : ∀ other, other ≠ next.pid →
        (procEnterInitial next.pid mid).entered other = mid.entered other :=
      fun other apart => Function.update_of_ne apart _ _
    refine ⟨⟨held, kernel, here, ?_, ?_, ?_⟩, fun _ => never, fun _ => running⟩
    · rw [running]
      decide
    · intro other member apart
      rw [state' other apart]
      exact others other member
    · intro other member
      by_cases same : other = next.pid
      · rw [same, running]
        exact nofun
      · rw [state' other same, entered' other same]
        exact fresh other member
  · rw [if_neg never] at switched
    cases switched
    exact ⟨⟨held, kernel, here, never, fun other member _ => others other member, fresh⟩,
      fun running => absurd running notRunning, fun new => absurd new never⟩

theorem SchedSystem.Sound.step {action : SchedAction} (sound : s.Sound pid)
    (step : SchedStep fs s action s') :
    ∃ next, s'.Sound next ∧
      (s.state pid = .running → (s'.state next = .running ↔ action.EntersNew s)) := by
  cases step with
  | spawn call =>
    rcases sound.spawn call with ⟨after, same⟩
    refine ⟨pid, after, fun running => ?_⟩
    rw [same]
    exact ⟨fun _ => trivial, fun _ => running⟩
  | yield call =>
    rcases sound.yield call with ⟨next, after, new⟩
    exact ⟨next, after, fun _ => new⟩
  | exit call =>
    rcases (sound.dying _).1.yield call with ⟨next, after, new⟩
    exact ⟨next, after, fun _ => new⟩

theorem SchedStart.sound {chew : BitVec 64 → Except Int (List (BitVec 32))} {world : μ}
    (start : SchedStart fs chew world s) : ∃ pid, s.Sound pid ∧ s.state pid = .running := by
  cases start with
  | @start mem path sys _ spawned started =>
  obtain ⟨kernel, held, -, -⟩ := procmSpawnProc_held (boot_poolSound chew world).table.held rfl
    (show (System.boot chew world).proc 0 = some _ from rfl) spawned
  unfold procmSchedStart at started
  split at started
  · cases started
  · cases started
  · cases started
  · rename_i pid1 procs
    cases started
    have slots : sys.table.slots = [some pid1.pid] := by
      show sys.procs.map _ = _
      rw [procs]
      rfl
    have only : ∀ other, some other ∈ sys.table.slots → other = pid1.pid := by
      intro other member
      rw [slots, List.mem_singleton] at member
      exact Option.some.inj member
    have running : Function.update (fun _ => ProcessState.neverRan) pid1.pid .running pid1.pid =
        .running := Function.update_self _ _ _
    refine ⟨pid1.pid, ⟨held, kernel, ?_, ?_, ?_, ?_⟩, running⟩
    · show sys.table.slots[0]? = _
      rw [slots]
      rfl
    · exact fun never => nomatch running.symm.trans never
    · exact fun other member apart => absurd (only other member) apart
    · intro other member never
      rw [only other member] at never
      exact nomatch running.symm.trans never

end Steps

section Runs

/-- In every run the process that executes is the only one that may be running, the assertion of
    `proc_switch` holds, and nothing is entered twice. -/
theorem sched_alone (fs : FileSystems μ) (chew : BitVec 64 → Except Int (List (BitVec 32)))
    (world : μ) (actions : List SchedAction) (first s : SchedSystem μ)
    (start : SchedStart fs chew world first) (run : Run (SchedStep fs) first actions s) :
    ∃ current, s.Alone current := by
  rcases start.sound with ⟨pid, sound, -⟩
  obtain ⟨pid', sound'⟩ := run.invariant (fun s => ∃ pid, s.Sound pid)
    (fun s action s' step ⟨pid, sound⟩ =>
      (sound.step step).imp fun next after => after.1) ⟨pid, sound⟩
  exact sound'.alone.imp fun current alone => alone.1

/-- In every run that resumes no process, the one that executes is running. -/
theorem sched_runs_one (fs : FileSystems μ) (chew : BitVec 64 → Except Int (List (BitVec 32)))
    (world : μ) (actions : List SchedAction) (first s : SchedSystem μ)
    (start : SchedStart fs chew world first)
    (run : Run (fun s action s' => SchedStep fs s action s' ∧ action.EntersNew s) first actions s) :
    s.RunsOne := by
  obtain ⟨pid, sound, running⟩ := run.invariant
    (fun s => ∃ pid, s.Sound pid ∧ s.state pid = .running)
    (fun s action s' ⟨step, new⟩ ⟨pid, sound, running⟩ =>
      (sound.step step).imp fun next after => ⟨after.1, (after.2 running).mpr new⟩) start.sound
  rcases sound.alone with ⟨current, alone, rfl⟩
  exact ⟨current, alone, running⟩

end Runs

section Examples

def SchedSystem.replay (fs : FileSystems μ) (s : SchedSystem μ) :
    SchedAction → Option (SchedSystem μ)
  | .spawn mem path => (schedSpawn fs mem path s).toOption
  | .yield => (schedYield 10 10 s).toOption
  | .exit status => (sysExit status 10 10 s).toOption

theorem schedStep_of_replay {action : SchedAction} (next : s.replay fs action = some s') :
    SchedStep fs s action s' := by
  have ok : ∀ result : Exec (SchedSystem μ), result.toOption = some s' → result = .ok s' := by
    intro result same
    cases result with
    | error stop => cases same
    | ok found =>
      cases same
      rfl
  cases action with
  | spawn mem path => exact .spawn (ok _ next)
  | yield => exact .yield (ok _ next)
  | exit status => exact .exit (ok _ next)

def bootSched : Option (SchedSystem Unit) :=
  match procmSpawnProc oneFile plentiful 0 (System.boot sha1OfKeys ()).kernelProc
      (System.boot sha1OfKeys ()) with
  | .error _ => none
  | .ok (st, sys) =>
    if st = 1 then
      (procmSchedStart ⟨⟨sys, 0⟩, fun _ => .neverRan, fun _ => false⟩).toOption
    else none

theorem bootSched_start {s : SchedSystem Unit} (booted : bootSched = some s) :
    SchedStart oneFile sha1OfKeys () s := by
  unfold bootSched at booted
  split at booted
  · cases booted
  · rename_i st sys spawned
    rcases Option.ite_none_right_eq_some.mp booted with ⟨rfl, started⟩
    cases result : procmSchedStart ⟨⟨sys, 0⟩, fun _ => ProcessState.neverRan, fun _ => false⟩ with
    | error stop =>
      rw [result] at started
      cases started
    | ok first =>
      rw [result] at started
      cases started
      exact .start spawned result

/-- The second process runs when the first one yields. -/
theorem sched_runs_one_second : ∃ first s, SchedStart oneFile sha1OfKeys () first ∧
    Run (fun s action s' => SchedStep oneFile s action s' ∧ action.EntersNew s) first
      [.spawn plentiful 0, .yield] s ∧ s.RunsOne := by
  have done : (bootSched.bind fun first => (first.replay oneFile (.spawn plentiful 0)).bind
      fun mid => (mid.replay oneFile .yield).map fun s =>
        (first.state 1, s.sched.sys.table.slots[s.sched.currentProcIdx]?, s.state 2)) =
      some (.running, some (some 2), .running) := by decide
  rcases Option.bind_eq_some_iff.mp done with ⟨first, booted, rest⟩
  rcases Option.bind_eq_some_iff.mp rest with ⟨mid, spawned, rest⟩
  rcases Option.map_eq_some_iff.mp rest with ⟨s, yielded, view⟩
  rcases Prod.mk.inj view with ⟨isFirst, rest⟩
  rcases Prod.mk.inj rest with ⟨slot, running⟩
  have start := bootSched_start booted
  have spawn := schedStep_of_replay spawned
  have yield := schedStep_of_replay yielded
  rcases start.sound with ⟨pid, sound, runs⟩
  rcases sound.step spawn with ⟨pid', sound', keeps⟩
  rcases sound'.step yield with ⟨next, after, new⟩
  have isNext := after.executes
  rw [slot] at isNext
  cases isNext
  have run : Run (fun s action s' => SchedStep oneFile s action s' ∧ action.EntersNew s) first
      [.spawn plentiful 0, .yield] s :=
    .snoc (.single ⟨spawn, trivial⟩) ⟨yield, (new ((keeps runs).mpr trivial)).mp running⟩
  exact ⟨first, s, start, run, sched_runs_one oneFile sha1OfKeys () _ first s start run⟩

/-- A process that yields to itself goes on as a process that has yielded. -/
theorem sched_runs_yielded : ∃ first s, SchedStart oneFile sha1OfKeys () first ∧
    Run (SchedStep oneFile) first [.yield] s ∧ ¬s.RunsOne := by
  have done : (bootSched.bind fun first => (first.replay oneFile .yield).map fun s =>
      (ringschedCurrentProc s.sched).map fun current => s.state current.pid) =
      some (some .yielded) := by decide
  rcases Option.bind_eq_some_iff.mp done with ⟨first, booted, rest⟩
  rcases Option.map_eq_some_iff.mp rest with ⟨s, yielded, view⟩
  refine ⟨first, s, bootSched_start booted, .single (schedStep_of_replay yielded), ?_⟩
  rintro ⟨current, alone, running⟩
  rw [alone.executes, Option.map_some, running] at view
  cases view

end Examples

end Dxgmx
