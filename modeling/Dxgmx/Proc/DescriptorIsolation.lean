import Dxgmx.Proc.Procm

open Library

namespace Dxgmx

variable {μ : Type}

def Opens (event : FdEvent) (key : Pid × Fd) : Prop := event = .opened key.1 key.2

def Closes (event : FdEvent) (key : Pid × Fd) : Prop := event = .closed key.1 key.2

def Respawns (event : FdEvent) (key : Pid × Fd) : Prop := event = .spawned key.1

/-- Opened by some process with that pid and not closed since. -/
def LeftOpen (log : List FdEvent) (key : Pid × Fd) : Prop := Outstanding Opens Closes log key

/-- Opened by the process that has the pid now and not closed since. -/
def Held (log : List FdEvent) (key : Pid × Fd) : Prop :=
  Outstanding Opens (fun event key => Closes event key ∨ Respawns event key) log key

/-- Every read and seek so far that found a descriptor was of a held one. -/
def AccessesWithin (held : List FdEvent → Pid × Fd → Prop) (log : List FdEvent) : Prop :=
  ∀ before pid fd found st after, log = before ++ .accessed pid fd found st :: after →
    found = true ∨ st ≠ -9 → held before (pid, fd)

theorem AccessesWithin.snoc {held : List FdEvent → Pid × Fd → Prop} {log : List FdEvent}
    {event : FdEvent} (past : AccessesWithin held log)
    (last : ∀ pid fd found st, event = .accessed pid fd found st → found = true ∨ st ≠ -9 →
      held log (pid, fd)) :
    AccessesWithin held (log ++ [event]) := by
  intro before pid fd found st after split finds
  rcases List.eq_nil_or_concat after with rfl | ⟨init, final, rfl⟩
  · have same := List.append_inj' split rfl
    rw [← same.1]
    exact last pid fd found st (List.cons.inj same.2).1 finds
  · have regroup : before ++ .accessed pid fd found st :: init.concat final =
        (before ++ .accessed pid fd found st :: init) ++ [final] := by simp
    rw [regroup] at split
    exact past before pid fd found st init (List.append_inj' split rfl).1 finds

/-- The table holds only what somebody opened and did not close. -/
structure Vfs.Sound (vfs : Vfs μ) : Prop where
  wellFormed : FdtWellFormed vfs.fdt
  backed : ∀ pid fd, (vfsFdtGetSysfd fd pid vfs.fdt).isSome → LeftOpen vfs.log (pid, fd)
  accesses : AccessesWithin LeftOpen vfs.log

theorem Vfs.Sound.fewer {vfs : Vfs μ} (sound : vfs.Sound) {fdt : SysFdHashtable}
    (wellFormed : FdtWellFormed fdt) (world : μ)
    (fewer : ∀ pid fd, (vfsFdtGetSysfd fd pid fdt).isSome →
      (vfsFdtGetSysfd fd pid vfs.fdt).isSome) :
    ({ vfs with fdt := fdt, world := world } : Vfs μ).Sound where
  wellFormed := wellFormed
  backed pid fd found := sound.backed pid fd (fewer pid fd found)
  accesses := sound.accesses

theorem Vfs.Sound.world {vfs : Vfs μ} (sound : vfs.Sound) (world : μ) :
    ({ vfs with world := world } : Vfs μ).Sound :=
  sound.fewer sound.wellFormed world fun _ _ found => found

theorem Vfs.Sound.store {vfs : Vfs μ} (sound : vfs.Sound) (sysfd : FileDescriptor) (world : μ) :
    ({ vfs with fdt := vfsFdtStore sysfd vfs.fdt, world := world } : Vfs μ).Sound := by
  refine sound.fewer (sound.wellFormed.store sysfd) world fun pid fd found => ?_
  rw [vfsFdtStore_isSome sound.wellFormed] at found
  exact found

theorem Vfs.Sound.accessed {vfs : Vfs μ} (sound : vfs.Sound) {pid : Pid} {fd : Fd} {found : Bool}
    {st : Int} (finds : found = true ∨ st ≠ -9 → LeftOpen vfs.log (pid, fd)) :
    (vfs.record (.accessed pid fd found st)).Sound where
  wellFormed := sound.wellFormed
  backed owner other there := (sound.backed owner other there).snoc nofun
  accesses := by
    refine sound.accesses.snoc fun owner other found' st' same => ?_
    cases same
    exact finds

theorem Vfs.Sound.spawned {vfs : Vfs μ} (sound : vfs.Sound) (pid : Pid) :
    (vfs.record (.spawned pid)).Sound where
  wellFormed := sound.wellFormed
  backed owner other there := (sound.backed owner other there).snoc nofun
  accesses := sound.accesses.snoc nofun

theorem vfsOpenVnode_sound (fs : FileSystems μ) (mem : OpenMem) (vnode : VirtualNodeRef)
    (flags : BitVec 32) (proc : Process) {vfs : Vfs μ} (sound : vfs.Sound) :
    (vfsOpenVnode fs mem vnode flags proc vfs).2.2.Sound := by
  unfold vfsOpenVnode
  dsimp only
  split
  · exact sound
  · split
    · rename_i failed
      rw [vfsFdtNewSysfd_none sound.wellFormed failed]
      exact sound
    · rename_i sysfd fdt made
      have wellFormed := sound.wellFormed.newSysfd made
      have fresh := (vfsFdtNewSysfd_insert made).1
      split
      · -- the descriptor is taken back, with whatever stood under its key before
        refine sound.fewer (wellFormed.freeSysfd sysfd) _ fun pid fd found => ?_
        obtain ⟨there, found⟩ := Option.isSome_iff_exists.mp found
        rw [vfsFdtFreeSysfd_get wellFormed, vfsFdtNewSysfd_get sound.wellFormed made, fresh] at found
        rw [if_neg found.1] at found
        exact Option.isSome_iff_exists.mpr ⟨there, found.2⟩
      · refine ⟨wellFormed.store _, fun pid fd found => ?_, sound.accesses.snoc nofun⟩
        change (vfsFdtGetSysfd fd pid (vfsFdtStore _ fdt)).isSome = true at found
        rw [vfsFdtStore_isSome wellFormed] at found
        obtain ⟨there, found⟩ := Option.isSome_iff_exists.mp found
        rw [vfsFdtNewSysfd_get sound.wellFormed made] at found
        split at found
        · rename_i same
          rw [same.1, same.2]
          exact Outstanding.taken _ _ rfl
        · exact (sound.backed pid fd (Option.isSome_iff_exists.mpr ⟨there, found⟩)).snoc nofun

theorem vfsOpen_sound (fs : FileSystems μ) (mem : OpenMem) (path : Ptr) (flags mode : BitVec 32)
    (proc : Process) {vfs : Vfs μ} (sound : vfs.Sound) {st : Int} {proc' : Process} {vfs' : Vfs μ}
    (h : vfsOpen fs mem path flags mode proc vfs = .ok (st, proc', vfs')) : vfs'.Sound := by
  unfold vfsOpen at h
  split at h
  · cases h
    exact sound
  · split at h
    · cases h
      exact sound
    · split at h
      · rename_i vnode world _
        have opened := vfsOpenVnode_sound fs mem vnode flags proc (sound.world world)
        rw [Except.ok.inj h] at opened
        exact opened
      · split at h
        · cases h
          exact sound.world _
        · split at h
          · cases h
            exact sound.world _
          · split at h
            · cases h
              exact sound.world _
            · split at h
              · cases h
              · cases h
                exact sound.world _

theorem vfsReadSysfd_sound (fs : FileSystems μ) (sysfd : FileDescriptor) (buf : Ptr)
    (n : BitVec 32) {vfs : Vfs μ} (sound : vfs.Sound) :
    (vfsReadSysfd fs sysfd buf n vfs).2.Sound ∧ (vfsReadSysfd fs sysfd buf n vfs).2.log = vfs.log := by
  unfold vfsReadSysfd
  split
  · exact ⟨sound, rfl⟩
  · split
    · exact ⟨sound, rfl⟩
    · split
      · exact ⟨sound, rfl⟩
      · dsimp only
        split
        · exact ⟨sound.world _, rfl⟩
        · exact ⟨sound.store _ _, rfl⟩

theorem vfsRead_sound (fs : FileSystems μ) (fd : Fd) (buf : Ptr) (n : BitVec 32) (proc : Process)
    {vfs : Vfs μ} (sound : vfs.Sound) : (vfsRead fs fd buf n proc vfs).2.Sound := by
  unfold vfsRead
  split
  · exact sound
  · split
    · exact sound.accessed (by simp)
    · rename_i sysfd there
      have read := vfsReadSysfd_sound fs sysfd buf n sound
      refine read.1.accessed fun _ => ?_
      rw [read.2]
      exact sound.backed _ _ (by rw [there]; rfl)

theorem vfsLseekSysfd_sound (fs : FileSystems μ) (sysfd : FileDescriptor) (off whence : BitVec 32)
    {vfs : Vfs μ} (sound : vfs.Sound) :
    (vfsLseekSysfd fs sysfd off whence vfs).2.Sound ∧
      (vfsLseekSysfd fs sysfd off whence vfs).2.log = vfs.log := by
  unfold vfsLseekSysfd
  dsimp only
  split
  · split
    · exact ⟨sound, rfl⟩
    · exact ⟨sound.store _ _, rfl⟩
  · split
    · split
      · exact ⟨sound, rfl⟩
      · exact ⟨sound.store _ _, rfl⟩
    · split
      · split
        · exact ⟨sound, rfl⟩
        · exact ⟨sound.store _ _, rfl⟩
      · exact ⟨sound, rfl⟩

theorem vfsLseek_sound (fs : FileSystems μ) (fd : Fd) (off whence : BitVec 32) (proc : Process)
    {vfs : Vfs μ} (sound : vfs.Sound) : (vfsLseek fs fd off whence proc vfs).2.Sound := by
  unfold vfsLseek
  split
  · exact sound
  · split
    · exact sound.accessed (by simp)
    · rename_i sysfd there
      have sought := vfsLseekSysfd_sound fs sysfd off whence sound
      refine sought.1.accessed fun _ => ?_
      rw [sought.2]
      exact sound.backed _ _ (by rw [there]; rfl)

theorem vfsClose_sound (fs : FileSystems μ) (fd : Fd) (proc : Process) {vfs : Vfs μ}
    (sound : vfs.Sound) {st : Int} {proc' : Process} {vfs' : Vfs μ}
    (h : vfsClose fs fd proc vfs = .ok (st, proc', vfs')) : vfs'.Sound := by
  unfold vfsClose at h
  split at h
  · cases h
    exact sound
  · split at h
    · cases h
      exact sound
    · rename_i sysfd there
      split at h
      · cases h
      · cases h
        have named := sound.wellFormed.named _ _ _ there
        refine ⟨sound.wellFormed.freeSysfd sysfd, fun owner other found => ?_,
          sound.accesses.snoc nofun⟩
        obtain ⟨left, found⟩ := Option.isSome_iff_exists.mp found
        rw [Vfs.record, vfsFdtFreeSysfd_get sound.wellFormed, named.1, named.2] at found
        refine (sound.backed owner other (Option.isSome_iff_exists.mpr ⟨left, found.2⟩)).snoc ?_
        intro closed
        cases closed
        exact found.1 ⟨rfl, rfl⟩

theorem loaderCall_sound (fs : FileSystems μ) (fd : Fd) (proc : Process) (calls : List LoaderCall)
    {vfs : Vfs μ} (sound : vfs.Sound) : (calls.foldl (loaderCall fs fd proc) vfs).Sound := by
  induction calls generalizing vfs with
  | nil => exact sound
  | cons call rest ih =>
    apply ih
    cases call with
    | read buf n => exact vfsRead_sound fs fd buf n proc sound
    | lseek off whence => exact vfsLseek_sound fs fd off whence proc sound

theorem procLoadFromFile_sound (fs : FileSystems μ) (mem : SpawnMem) (path : Ptr)
    (proc : Process) {vfs : Vfs μ} (sound : vfs.Sound) {st : Int} {proc' : Process} {vfs' : Vfs μ}
    (h : procLoadFromFile fs mem path proc vfs = .ok (st, proc', vfs')) : vfs'.Sound := by
  unfold procLoadFromFile at h
  obtain ⟨⟨fd, opener, opened⟩, openResult, h⟩ := Exec.bind_ok.mp h
  have sound := vfsOpen_sound fs mem.openFile path 0x1 0 proc sound openResult
  dsimp only at h
  split at h
  · cases h
    exact sound
  · obtain ⟨⟨closed, closer, vfs⟩, closeResult, h⟩ := Exec.bind_ok.mp h
    cases h
    exact vfsClose_sound fs _ opener (loaderCall_sound fs _ opener mem.loader sound) closeResult

theorem procCreateAddressSpace_sound (fs : FileSystems μ) (mem : SpawnMem) (path : Ptr)
    (proc : Process) {vfs : Vfs μ} (sound : vfs.Sound) {st : Int} {proc' : Process} {vfs' : Vfs μ}
    (h : procCreateAddressSpace fs mem path proc vfs = .ok (st, proc', vfs')) : vfs'.Sound := by
  unfold procCreateAddressSpace at h
  split at h
  · cases h
    exact sound
  · split at h
    · cases h
      exact sound
    · obtain ⟨⟨loaded, loader, vfs⟩, loadResult, h⟩ := Exec.bind_ok.mp h
      have sound := procLoadFromFile_sound fs mem path proc sound loadResult
      dsimp only at h
      split at h
      · cases h
        exact sound
      · split at h
        · cases h
          exact sound
        · cases h
          exact sound

@[simp] theorem System.setProc_vfs (sys : System μ) (proc : Process) :
    (sys.setProc proc).vfs = sys.vfs := by
  unfold System.setProc
  split <;> rfl

theorem procmAvailablePid_vfs (sys : System μ) : (procmAvailablePid sys).2.vfs = sys.vfs := by
  unfold procmAvailablePid
  dsimp only
  split <;> rfl

theorem procmAddProcToPool_vfs {mem : Bool} {proc : Process} {sys sys' : System μ} {st : Int}
    (h : procmAddProcToPool mem proc sys = .ok (st, sys')) : sys'.vfs = sys.vfs := by
  unfold procmAddProcToPool at h
  dsimp only at h
  split at h
  · cases h
  · split at h
    · cases h
      rfl
    · cases h
      rfl

theorem procmEnroll_sound (mem : SpawnMem) (newproc : Process) {sys sys' : System μ} {st : Int}
    (sound : sys.vfs.Sound) (h : procmEnroll mem newproc sys = .ok (st, sys')) :
    sys'.vfs.Sound := by
  unfold procmEnroll at h
  rw [← procmAvailablePid_vfs sys] at sound
  dsimp only at h
  split at h
  · cases h
    exact sound
  · obtain ⟨⟨added, pooled⟩, addResult, h⟩ := Exec.bind_ok.mp h
    rw [← procmAddProcToPool_vfs addResult] at sound
    dsimp only at h
    split at h
    · cases h
      exact sound
    · cases h
      exact sound.spawned _

theorem procmSpawnProc_sound (fs : FileSystems μ) (mem : SpawnMem) (path : Ptr) (proc : Process)
    {sys sys' : System μ} {st : Int} (sound : sys.vfs.Sound)
    (h : procmSpawnProc fs mem path proc sys = .ok (st, sys')) : sys'.vfs.Sound := by
  unfold procmSpawnProc at h
  split at h
  · cases h
    exact sound
  · obtain ⟨⟨created, actingproc, vfs⟩, createResult, h⟩ := Exec.bind_ok.mp h
    have sound := procCreateAddressSpace_sound fs mem path proc sound createResult
    dsimp only at h
    have after : (System.setProc { sys with vfs := vfs } actingproc).vfs.Sound := by
      rw [System.setProc_vfs]
      exact sound
    split at h
    · cases h
      exact after
    · split at h
      · cases h
        exact after
      · split at h
        · cases h
          exact after
        · exact procmEnroll_sound mem _ after h

theorem procmReap_vfs {target : Pid} {proc : Process} {sys sys' : System μ} {st : Int}
    (h : procmReap target proc sys = .ok (st, sys')) : sys'.vfs = sys.vfs := by
  unfold procmReap procmTryKillProc at h
  split at h
  · split at h
    · split at h
      · split at h
        · cases h
        · cases h
          rfl
      · cases h
        rfl
    · cases h
  · cases h

theorem perform_sound (fs : FileSystems μ) (proc : Process) (call : Call) {sys sys' : System μ}
    {st : Int} (sound : sys.vfs.Sound) (h : perform fs proc sys call = .ok (st, sys')) :
    sys'.vfs.Sound := by
  cases call with
  | spawn mem path => exact procmSpawnProc_sound fs mem path proc sound h
  | openFile mem path flags mode =>
    obtain ⟨⟨fd, opener, vfs⟩, openResult, h⟩ := Exec.bind_ok.mp h
    cases h
    rw [System.setProc_vfs]
    exact vfsOpen_sound fs mem path flags mode proc sound openResult
  | close fd =>
    obtain ⟨⟨closed, closer, vfs⟩, closeResult, h⟩ := Exec.bind_ok.mp h
    cases h
    rw [System.setProc_vfs]
    exact vfsClose_sound fs fd proc sound closeResult
  | read fd buf n =>
    cases h
    exact vfsRead_sound fs fd buf n proc sound
  | lseek fd off whence =>
    cases h
    exact vfsLseek_sound fs fd off whence proc sound
  | markDead status =>
    cases h
    rw [System.setProc_vfs]
    exact sound
  | reap target =>
    rw [procmReap_vfs h]
    exact sound

/-- One call by a process that exists. -/
def Step (fs : FileSystems μ) (sys : System μ) (label : Pid × Call) (sys' : System μ) : Prop :=
  sys.next fs label.1 label.2 = some sys'

theorem step_sound (fs : FileSystems μ) {sys sys' : System μ} {label : Pid × Call}
    (step : Step fs sys label sys') (sound : sys.vfs.Sound) : sys'.vfs.Sound := by
  unfold Step System.next at step
  split at step
  · cases step
  · rename_i proc _
    obtain ⟨⟨st, after⟩, done, rfl⟩ := Option.map_eq_some_iff.mp step
    cases result : perform fs proc sys label.2 with
    | error stop =>
      rw [result] at done
      cases done
    | ok pair =>
      rw [result] at done
      cases done
      exact perform_sound fs proc label.2 sound result

theorem boot_sound (chew : BitVec 64 → Except Int (List (BitVec 32))) (world : μ) :
    (System.boot chew world).vfs.Sound where
  wellFormed := fdtWellFormed_init chew
  backed pid fd found := by
    change (vfsFdtGetSysfd fd pid (HashTable.init chew)).isSome = true at found
    rw [vfsFdtGetSysfd_init] at found
    cases found
  accesses := by
    intro before pid fd found st after split
    cases before <;> cases split

/-- No process got the pid of one that had died with a descriptor open. -/
def CleanPids (log : List FdEvent) : Prop :=
  ∀ before pid after, log = before ++ .spawned pid :: after → ∀ fd, ¬ LeftOpen before (pid, fd)

theorem LeftOpen.held {log : List FdEvent} {key : Pid × Fd} (clean : CleanPids log)
    (leftOpen : LeftOpen log key) : Held log key := by
  refine leftOpen.unbroken fun before event after split respawn => ?_
  rw [respawn] at split
  exact clean before key.1 after split key.2

theorem not_held_spawned (log : List FdEvent) (pid : Pid) (fd : Fd) :
    ¬ Held (log ++ [.spawned pid]) (pid, fd) := by
  intro held
  rcases outstanding_snoc held with taken | ⟨-, kept⟩
  · cases taken
  · exact kept (.inr rfl)

theorem CleanPids.before {log before after : List FdEvent} (clean : CleanPids log)
    (split : log = before ++ after) : CleanPids before := by
  intro earlier pid later inside
  refine clean earlier pid (later ++ after) ?_
  rw [split, inside]
  simp

/-- Nobody reaches a descriptor that is not theirs: not by the next call of any process, not in
    any call so far, and a process that was just spawned has none. -/
structure Isolated (fs : FileSystems μ) (sys : System μ) : Prop where
  read : ∀ (proc : Process) fd buf n, 0 ≤ fd.toInt → (vfsRead fs fd buf n proc sys.vfs).1 ≠ -9 →
    Held sys.vfs.log (proc.pid, fd)
  lseek : ∀ (proc : Process) fd off whence, 0 ≤ fd.toInt →
    (vfsLseek fs fd off whence proc sys.vfs).1 ≠ -9 → Held sys.vfs.log (proc.pid, fd)
  past : AccessesWithin Held sys.vfs.log
  fresh : ∀ before pid, sys.vfs.log = before ++ [.spawned pid] →
    ∀ fd, vfsFdtGetSysfd fd pid sys.vfs.fdt = none

theorem vfsRead_found {fs : FileSystems μ} {fd : Fd} {buf : Ptr} {n : BitVec 32} {proc : Process}
    {vfs : Vfs μ} (valid : 0 ≤ fd.toInt) (found : (vfsRead fs fd buf n proc vfs).1 ≠ -9) :
    (vfsFdtGetSysfd fd proc.pid vfs.fdt).isSome := by
  unfold vfsRead at found
  rw [if_neg (by omega)] at found
  split at found
  · exact absurd rfl found
  · rename_i there
    rw [there]
    rfl

theorem vfsLseek_found {fs : FileSystems μ} {fd : Fd} {off whence : BitVec 32} {proc : Process}
    {vfs : Vfs μ} (valid : 0 ≤ fd.toInt) (found : (vfsLseek fs fd off whence proc vfs).1 ≠ -9) :
    (vfsFdtGetSysfd fd proc.pid vfs.fdt).isSome := by
  unfold vfsLseek at found
  rw [if_neg (by omega)] at found
  split at found
  · exact absurd rfl found
  · rename_i there
    rw [there]
    rfl

theorem Vfs.Sound.isolated {fs : FileSystems μ} {sys : System μ} (sound : sys.vfs.Sound)
    (clean : CleanPids sys.vfs.log) : Isolated fs sys where
  read proc fd buf n valid found := (sound.backed _ _ (vfsRead_found valid found)).held clean
  lseek proc fd off whence valid found :=
    (sound.backed _ _ (vfsLseek_found valid found)).held clean
  past before pid fd found st after split finds :=
    (sound.accesses before pid fd found st after split finds).held (clean.before split)
  fresh := by
    intro before pid last fd
    by_contra there
    have leftOpen := sound.backed pid fd (Option.isSome_iff_ne_none.mpr there)
    have held := leftOpen.held clean
    rw [last] at held
    exact not_held_spawned before pid fd held

/-- Descriptors are isolated in every run in which no process gets the pid of one that died with a
    descriptor open. -/
theorem descriptors_isolated (fs : FileSystems μ)
    (chew : BitVec 64 → Except Int (List (BitVec 32))) (world : μ) (calls : List (Pid × Call))
    (sys : System μ) (run : Run (Step fs) (System.boot chew world) calls sys)
    (clean : CleanPids sys.vfs.log) : Isolated fs sys := by
  have sound := run.invariant (fun sys => sys.vfs.Sound) (fun _ _ _ => step_sound fs)
    (boot_sound chew world)
  exact sound.isolated clean

/-- One file, and a driver that lets everybody open and read it. -/
def oneFile : FileSystems Unit where
  userCopyStrFrom _ _ := .ok [0x2f]
  lookupVnode _ _ := (.ok 1, ())
  mkfile _ _ _ := (.error (-38), ())
  mode _ _ := 0
  size _ _ := 4096
  opsOpen _ _ _ := (0, ())
  opsRead _ _ n _ _ := (n.toInt, ())
  vnodeIncreaseRefcount _ _ := ()
  vnodeDecreaseRefcount _ _ := .ok ()

def plentiful : SpawnMem where
  newproc := true
  fds := true
  pagingStruct := true
  initPagingStruct := 0
  openFile := ⟨true, ⟨true, true, true⟩⟩
  loader := [.lseek 0 1, .read 0 52]
  loaded := 0
  stack := 0
  kstack := true
  path := true
  pool := true

/-- Process 2 opens a file, does what `closing` says, exits and is reaped by process 1, which then
    spawns another process 2. -/
def reuse (closing : List (Pid × Call)) : List (Pid × Call) :=
  [(0, .spawn plentiful 0), (1, .spawn plentiful 0),
    (2, .openFile plentiful.openFile 0 0x1 0)] ++ closing ++
  [(2, .markDead 0), (1, .reap 2), (1, .spawn plentiful 0)]

def reuseRun (closing : List (Pid × Call)) : Option (System Unit) :=
  (reuse closing).foldlM (fun sys label => sys.next oneFile label.1 label.2)
    (System.boot sha1OfKeys ())

theorem reuseRun_run {closing : List (Pid × Call)} {sys : System Unit}
    (ran : reuseRun closing = some sys) :
    Run (Step oneFile) (System.boot sha1OfKeys ()) (reuse closing) sys :=
  Run.of_foldlM (fun (sys : System Unit) (label : Pid × Call) =>
    sys.next oneFile label.1 label.2) ran

theorem descriptors_isolated_closed :
    ∃ sys, Run (Step oneFile) (System.boot sha1OfKeys ()) (reuse [(2, .close 0)]) sys ∧
      Isolated oneFile sys := by
  have done : (reuseRun [(2, .close 0)]).map (fun sys => sys.vfs.log) =
      some [.opened 0 0, .accessed 0 0 true 0, .accessed 0 0 true 52, .closed 0 0, .spawned 1,
        .opened 1 0, .accessed 1 0 true 0, .accessed 1 0 true 52, .closed 1 0, .spawned 2,
        .opened 2 0, .closed 2 0,
        .opened 1 1, .accessed 1 1 true 0, .accessed 1 1 true 52, .closed 1 1, .spawned 2] := by
    decide
  obtain ⟨sys, ran, log⟩ := Option.map_eq_some_iff.mp done
  have run := reuseRun_run ran
  refine ⟨sys, run, descriptors_isolated oneFile sha1OfKeys () _ sys run ?_⟩
  rw [log]
  intro before pid after split fd
  simp [List.cons_eq_append_iff] at split
  rcases split with ⟨_, rfl, ⟨rfl, rfl, -⟩ | ⟨_, rfl, ⟨rfl, rfl, -⟩ | ⟨rfl, rfl, -⟩⟩⟩
  · simp [LeftOpen, outstanding_cons, Opens, Closes, not_outstanding_nil]
  · simp [LeftOpen, outstanding_cons, Opens, Closes, not_outstanding_nil]
  · simp [LeftOpen, outstanding_cons, Opens, Closes, not_outstanding_nil]

theorem descriptors_stray :
    ∃ sys, Run (Step oneFile) (System.boot sha1OfKeys ()) (reuse []) sys ∧
      ¬ Isolated oneFile sys := by
  have done : (reuseRun []).map (fun sys => (sys.vfs.log.getLast?, sys.vfs.log.length,
      (vfsFdtGetSysfd 0 2 sys.vfs.fdt).isSome)) = some (some (.spawned 2), 16, true) := by
    decide
  obtain ⟨sys, ran, facts⟩ := Option.map_eq_some_iff.mp done
  refine ⟨sys, reuseRun_run ran, fun isolated => ?_⟩
  simp only [Prod.mk.injEq] at facts
  obtain ⟨before, last⟩ := List.getLast?_eq_some_iff.mp facts.1
  have none := isolated.fresh before 2 last 0
  rw [none] at facts
  simp at facts

end Dxgmx
