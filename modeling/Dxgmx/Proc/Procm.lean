import Dxgmx.Fs.Vfs

open Library

namespace Dxgmx

variable {μ : Type}

/-- The processes and what they share. `procs` is `g_procs`: the process with pid `n` stands at
    index `n - 1`, and `g_proc_size` is the length. The process that acts for the kernel has pid 0
    and is not in the pool. -/
structure System (μ : Type) where
  vfs : Vfs μ
  procs : List (Option Process)
  kernelProc : Process
  lastFreeProcIdx : Nat
  procCount : Nat

def pidIdx (pid : Pid) : Nat := (pid - 1).toNat

def System.proc (sys : System μ) (pid : Pid) : Option Process :=
  if pid = 0 then some sys.kernelProc else sys.procs.getD (pidIdx pid) none

/-- A store to the fields of a process. -/
def System.setProc (sys : System μ) (proc : Process) : System μ :=
  if proc.pid = 0 then { sys with kernelProc := proc }
  else { sys with procs := sys.procs.set (pidIdx proc.pid) (some proc) }

/-- The search over the pool from `idx` on; `none` when it is back at `startPoint`. -/
def procmAvailablePidLoop (startPoint : Nat) : Nat → List (Option Process) → Option Nat
  | idx, some _ :: rest =>
    if idx + 1 = startPoint then none else procmAvailablePidLoop startPoint (idx + 1) rest
  | idx, _ => some idx

def procmAvailablePid (sys : System μ) : Int × System μ :=
  let startPoint := sys.lastFreeProcIdx
  match procmAvailablePidLoop startPoint startPoint (sys.procs.drop startPoint) with
  | none => (-39, sys)
  | some idx => ((BitVec.ofNat 32 (idx + 1)).toInt, { sys with lastFreeProcIdx := idx + 1 })

/-- A pool that a `size_t` cannot measure does not exist. -/
def procmAddProcToPool (mem : Bool) (proc : Process) (sys : System μ) : Exec (Int × System μ) :=
  let idx := pidIdx proc.pid
  if sys.procs.length < idx then .error .panic
  else if idx = sys.procs.length ∧ (mem = false ∨ 2 ^ 32 ≤ (sys.procs.length + 16) * 4) then
    .ok (-12, sys)
  else
    let procs := if idx = sys.procs.length then sys.procs ++ List.replicate 16 none else sys.procs
    .ok (0, { sys with procs := procs.set idx (some proc), procCount := sys.procCount + 1 })

/-- What `elfloader_load_from_file` does to the descriptor of the file. -/
inductive LoaderCall
  | read (buf : Ptr) (n : BitVec 32)
  | lseek (off whence : BitVec 32)
  deriving DecidableEq

def loaderCall (fs : FileSystems μ) (fd : Fd) (actingproc : Process) (vfs : Vfs μ) :
    LoaderCall → Vfs μ
  | .read buf n => (vfsRead fs fd buf n actingproc vfs).2
  | .lseek off whence => (vfsLseek fs fd off whence actingproc vfs).2

/-- What the parts of the kernel that no process sees answer to a spawn: the allocator, the paging
    code and the loader. -/
structure SpawnMem where
  newproc : Bool
  fds : Bool
  pagingStruct : Bool
  initPagingStruct : Int
  openFile : OpenMem
  loader : List LoaderCall
  loaded : Int
  stack : Int
  kstack : Bool
  path : Bool
  pool : Bool

def procLoadFromFile (fs : FileSystems μ) (mem : SpawnMem) (path : Ptr) (actingproc : Process)
    (vfs : Vfs μ) : Exec (Int × Process × Vfs μ) := do
  let (fd, actingproc, vfs) ← vfsOpen fs mem.openFile path 0x1 0 actingproc vfs
  if fd < 0 then pure (fd, actingproc, vfs)
  else
    let fd := BitVec.ofInt 32 fd
    let vfs := mem.loader.foldl (loaderCall fs fd actingproc) vfs
    let (_, actingproc, vfs) ← vfsClose fs fd actingproc vfs
    pure (mem.loaded, actingproc, vfs)

def procCreateAddressSpace (fs : FileSystems μ) (mem : SpawnMem) (path : Ptr)
    (actingproc : Process) (vfs : Vfs μ) : Exec (Int × Process × Vfs μ) :=
  if mem.pagingStruct = false then .ok (-12, actingproc, vfs)
  else if mem.initPagingStruct < 0 then .ok (mem.initPagingStruct, actingproc, vfs)
  else do
    let (st, actingproc, vfs) ← procLoadFromFile fs mem path actingproc vfs
    if st < 0 then pure (st, actingproc, vfs)
    else if mem.stack < 0 then pure (mem.stack, actingproc, vfs)
    else pure (0, actingproc, vfs)

/-- The end of `procm_spawn_proc`, where the new process gets its pid. -/
def procmEnroll (mem : SpawnMem) (newproc : Process) (sys : System μ) : Exec (Int × System μ) :=
  let (pid, sys) := procmAvailablePid sys
  if pid ≤ 0 then .ok (-28, sys)
  else do
    let newproc := { newproc with pid := BitVec.ofInt 32 pid }
    let (st, sys) ← procmAddProcToPool mem.pool newproc sys
    if st < 0 then pure (st, sys)
    else pure (pid, { sys with vfs := sys.vfs.record (.spawned newproc.pid) })

def procmSpawnProc (fs : FileSystems μ) (mem : SpawnMem) (path : Ptr) (actingproc : Process)
    (sys : System μ) : Exec (Int × System μ) :=
  match if mem.newproc then procInit mem.fds else none with
  | none => .ok (-12, sys)
  | some newproc => do
    let (st, actingproc, vfs) ← procCreateAddressSpace fs mem path actingproc sys.vfs
    let sys := { sys with vfs := vfs }.setProc actingproc
    if st < 0 then pure (st, sys)
    else if mem.kstack = false then pure (-12, sys)
    else if mem.path = false then pure (-12, sys)
    else procmEnroll mem newproc sys

def procmMarkDead (st : BitVec 32) (proc : Process) : Process :=
  { proc with exitStatus := st, zombie := true }

/-- `proc_free` and `kfree` leave nothing of the process. They do not look at the table of
    descriptors. -/
def procmKill (proc : Process) (sys : System μ) : System μ :=
  { sys with
    procs := sys.procs.set (pidIdx proc.pid) none
    lastFreeProcIdx := pidIdx proc.pid
    procCount := sys.procCount - 1 }

def procmTryKillProc (targetproc actingproc : Process) (sys : System μ) : Exec (Int × System μ) :=
  if actingproc.pid = targetproc.pid then
    if sys.procCount = 1 then .error .panic else .ok (-22, sys)
  else .ok (0, procmKill targetproc sys)

/-- A call that a process makes, or the scheduler while a process gives up the processor. -/
inductive Call
  | spawn (mem : SpawnMem) (path : Ptr)
  | openFile (mem : OpenMem) (path : Ptr) (flags mode : BitVec 32)
  | close (fd : Fd)
  | read (fd : Fd) (buf : Ptr) (n : BitVec 32)
  | lseek (fd : Fd) (off whence : BitVec 32)
  | markDead (st : BitVec 32)
  | reap (target : Pid)

/-- The loop of `procm_sched_yield` over one process that the scheduler comes by. It kills only
    processes of the pool that are marked dead. -/
def procmReap (target : Pid) (actingproc : Process) (sys : System μ) : Exec (Int × System μ) :=
  match sys.procs.getD (pidIdx target) none with
  | some targetproc =>
    if targetproc.zombie then procmTryKillProc targetproc actingproc sys else .error .fault
  | none => .error .fault

def perform (fs : FileSystems μ) (proc : Process) (sys : System μ) : Call → Exec (Int × System μ)
  | .spawn mem path => procmSpawnProc fs mem path proc sys
  | .openFile mem path flags mode => do
    let (st, proc, vfs) ← vfsOpen fs mem path flags mode proc sys.vfs
    pure (st, { sys with vfs := vfs }.setProc proc)
  | .close fd => do
    let (st, proc, vfs) ← vfsClose fs fd proc sys.vfs
    pure (st, { sys with vfs := vfs }.setProc proc)
  | .read fd buf n =>
    let (st, vfs) := vfsRead fs fd buf n proc sys.vfs
    .ok (st, { sys with vfs := vfs })
  | .lseek fd off whence =>
    let (st, vfs) := vfsLseek fs fd off whence proc sys.vfs
    .ok (st, { sys with vfs := vfs })
  | .markDead st => .ok (0, sys.setProc (procmMarkDead st proc))
  | .reap target => procmReap target proc sys

/-- One call by the process with the given pid. -/
def System.next (fs : FileSystems μ) (sys : System μ) (pid : Pid) (call : Call) :
    Option (System μ) :=
  match sys.proc pid with
  | none => none
  | some proc => (perform fs proc sys call).toOption.map Prod.snd

/-- The system when the first process is about to be spawned: after `vfs_init`, `procm_init` and
    `procm_spawn_kernel_proc`, whose `proc_init` succeeds or panics. -/
def System.boot (chew : BitVec 64 → Except Int (List (BitVec 32))) (world : μ) : System μ where
  vfs := ⟨HashTable.init chew, world, []⟩
  procs := [none]
  kernelProc := ⟨0, List.replicate 4 false, 0, false, 0⟩
  lastFreeProcIdx := 0
  procCount := 0

end Dxgmx
