import Dxgmx.Proc.RingOrder
import Mathlib.Logic.Function.Basic

open Library

namespace Dxgmx

variable {μ : Type}

inductive ProcessState
  | neverRan
  | running
  | yielded
  | preempted
  | blocked
  deriving DecidableEq

/-- The scheduler, and the states of the processes by their pids. `entered` is a ghost: the
    processes that have run. -/
structure SchedSystem (μ : Type) where
  sched : Ringsched μ
  state : Pid → ProcessState
  entered : Pid → Bool

def procEnterInitial (pid : Pid) (s : SchedSystem μ) : SchedSystem μ :=
  { s with
    state := Function.update s.state pid .running
    entered := Function.update s.entered pid true }

/-- A process that ran before goes on behind its own `task_switch`, in the state it is in. -/
def procSwitch (next : Process) (s : SchedSystem μ) : Exec (SchedSystem μ) :=
  if s.state next.pid = .running then .error .panic
  else if s.state next.pid = .neverRan then .ok (procEnterInitial next.pid s)
  else .ok s

/-- `procm_sched_yield` up to its call of `proc_switch`. -/
def schedYieldNext (fuel rounds : Nat) (s : SchedSystem μ) : Exec (Process × SchedSystem μ) :=
  match ringschedCurrentProc s.sched with
  | none => .error .fault
  | some current =>
    match procmSchedYield fuel rounds s.sched with
    | (.stop stop, _) => .error stop
    | (.switch next, yield) =>
      .ok (next, ⟨yield.sched, Function.update s.state current.pid .yielded, s.entered⟩)

def schedYield (fuel rounds : Nat) (s : SchedSystem μ) : Exec (SchedSystem μ) := do
  let (next, s) ← schedYieldNext fuel rounds s
  procSwitch next s

/-- The part of `sys_exit` before it yields. -/
def SchedSystem.dying (status : BitVec 32) (s : SchedSystem μ) : SchedSystem μ :=
  match ringschedCurrentProc s.sched with
  | none => s
  | some current =>
    { s with sched := { s.sched with sys := s.sched.sys.setProc (procmMarkDead status current) } }

def sysExit (status : BitVec 32) (fuel rounds : Nat) (s : SchedSystem μ) : Exec (SchedSystem μ) :=
  schedYield fuel rounds (s.dying status)

def procmSchedStart (s : SchedSystem μ) : Exec (SchedSystem μ) :=
  match s.sched.sys.procs with
  | [] => .error .panic
  | _ :: _ :: _ => .error .panic
  | [none] => .error .fault
  | [some pid1] =>
    .ok (procEnterInitial pid1.pid { s with sched := { s.sched with currentProcIdx := 0 } })

/-- A spawn by the process that is running. -/
def schedSpawn (fs : FileSystems μ) (mem : SpawnMem) (path : Ptr) (s : SchedSystem μ) :
    Exec (SchedSystem μ) :=
  match ringschedCurrentProc s.sched with
  | none => .error .fault
  | some proc => do
    let (st, sys) ← procmSpawnProc fs mem path proc s.sched.sys
    let s := { s with sched := { s.sched with sys := sys } }
    if st ≤ 0 then pure s
    else
      let pid : Pid := BitVec.ofInt 32 st
      pure { s with
        state := Function.update s.state pid .neverRan
        entered := Function.update s.entered pid false }

inductive SchedAction
  | spawn (mem : SpawnMem) (path : Ptr)
  | yield
  | exit (status : BitVec 32)

inductive SchedStep (fs : FileSystems μ) : SchedSystem μ → SchedAction → SchedSystem μ → Prop
  | spawn {s s' : SchedSystem μ} {mem : SpawnMem} {path : Ptr}
      (call : schedSpawn fs mem path s = .ok s') : SchedStep fs s (.spawn mem path) s'
  | yield {s s' : SchedSystem μ} {fuel rounds : Nat} (call : schedYield fuel rounds s = .ok s') :
      SchedStep fs s .yield s'
  | exit {s s' : SchedSystem μ} {status : BitVec 32} {fuel rounds : Nat}
      (call : sysExit status fuel rounds s = .ok s') : SchedStep fs s (.exit status) s'

/-- The kernel process spawns the first one, and the scheduler starts it. -/
inductive SchedStart (fs : FileSystems μ) (chew : BitVec 64 → Except Int (List (BitVec 32)))
    (world : μ) : SchedSystem μ → Prop
  | start {mem : SpawnMem} {path : Ptr} {sys : System μ} {s : SchedSystem μ}
      (spawned : procmSpawnProc fs mem path (System.boot chew world).kernelProc
        (System.boot chew world) = .ok (1, sys))
      (started : procmSchedStart ⟨⟨sys, 0⟩, fun _ => .neverRan, fun _ => false⟩ = .ok s) :
      SchedStart fs chew world s

/-- A yield that gets to `proc_switch` passes its assertion, and enters no process again that has
    run. -/
def SchedSystem.SwitchesRight (s : SchedSystem μ) : Prop :=
  ∀ fuel rounds next s', schedYieldNext fuel rounds s = .ok (next, s') →
    s'.state next.pid ≠ .running ∧ (s'.state next.pid = .neverRan → s'.entered next.pid = false)

/-- No process but the one that executes is in the state of one. -/
structure SchedSystem.Alone (s : SchedSystem μ) (current : Process) : Prop where
  executes : ringschedCurrentProc s.sched = some current
  others : ∀ other ∈ s.sched.sys.live, other.pid ≠ current.pid → s.state other.pid ≠ .running
  yields : s.SwitchesRight
  exits : ∀ status, (s.dying status).SwitchesRight

/-- The process that executes is the one that is `PROC_RUNNING`. -/
def SchedSystem.RunsOne (s : SchedSystem μ) : Prop :=
  ∃ current, s.Alone current ∧ s.state current.pid = .running

/-- The next process that is not a zombie has not run yet. -/
def SchedSystem.NextIsNew (s : SchedSystem μ) : Prop :=
  ∀ idx next, NextLive s.sched.sys.procs s.sched.currentProcIdx idx next →
    s.state next.pid = .neverRan

/-- The step resumes no process. -/
def SchedAction.EntersNew (s : SchedSystem μ) : SchedAction → Prop
  | spawn _ _ => True
  | yield => s.NextIsNew
  | exit status => (s.dying status).NextIsNew

end Dxgmx
