import Dxgmx.Fs.OpenFailure
import Dxgmx.User.Access
import Dxgmx.User.UserCopies

open Library

namespace Dxgmx

/-- What `vfs_open` and `vfs_rmfile` have in `safe_path` after `user_copy_str_from`. -/
def userPath (space : PageRights) (path safePath : Ptr) (mem : Ptr → Byte) :
    Except Errno (List Byte) :=
  let (st, mem) := userCopyStrFrom32 space path safePath (BitVec.ofNat 32 pathMax) mem
  if negative : st.toInt < 0 then .error ⟨st.toInt, negative⟩ else .ok (stringAt mem safePath pathMax)

/-- A string of the user of length `PATH_MAX` or more, and the buffer on the stack of the kernel. -/
structure Overlong (space : PageRights) (path safePath : Ptr) (mem : Ptr → Byte) : Prop where
  long : ∀ i < pathMax, mem (path + BitVec.ofNat 32 i) ≠ 0
  user : ∀ i < pathMax, ¬ InKernel (path + BitVec.ofNat 32 i)
  kernel : InKernel safePath
  buffer : AllFrom space.mayWrite safePath pathMax

/-- No descriptor is opened or closed, and no vnode is made, marked or removed. -/
structure NothingDone (proc proc' : Process) (vfs vfs' : Vfs Mounts) : Prop where
  fds : ∀ i, proc'.fds.getD i false = proc.fds.getD i false
  fdt : ∀ fd pid, vfsFdtGetSysfd fd pid vfs'.fdt = vfsFdtGetSysfd fd pid vfs.fdt
  vnodes : ∀ vnode, vnode ∈ vfs'.world.vnodes ↔ vnode ∈ vfs.world.vnodes

/-- Whoever calls, and whatever memory there is, the path is refused with a negative errno. -/
structure PathRefused (path : Except Errno (List Byte)) (flags mode : BitVec 32) (mounts : Mounts) :
    Prop where
  opens : ∀ answers mem proc fdt log, answers.path = path →
    ∃ st proc' vfs', mountedOpen answers mem flags mode proc ⟨fdt, mounts, log⟩ =
      .ok (st, proc', vfs') ∧ st < 0 ∧ NothingDone proc proc' ⟨fdt, mounts, log⟩ vfs'
  removes : ∃ st mounts', mountedRmfile path mounts = .ok (st, mounts') ∧ st < 0 ∧
    ∀ vnode, vnode ∈ mounts'.vnodes ↔ vnode ∈ mounts.vnodes

/-- A mounted file system looks the path up and does not find it, and it is not to be made. -/
def NamesNothing (path : List Byte) (flags : BitVec 32) (mounts : Mounts) : Prop :=
  ∃ fs st, vfsTopmostFsForPath path mounts.filesystems = .ok fs ∧
    fsLookupVnode path fs = .ok (.error st) ∧ (st = -2 → flags &&& 0x8 = 0)

section Copy

variable {space : PageRights} {path safePath : Ptr} {mem : Ptr → Byte}

/-- The first `PATH_MAX - 1` bytes of a longer string are taken for the path. -/
theorem userPath_overlong (overlong : Overlong space path safePath mem) :
    (AllFrom space.mayReadLong path pathMax →
      userPath space path safePath mem = .ok (stringAt mem path (pathMax - 1))) ∧
    (¬ AllFrom space.mayReadLong path pathMax →
      userPath space path safePath mem = .error ⟨-14, by decide⟩) := by
  have whole : stringBytes mem path (511 + 1) = 511 + 1 := by
    have length : strnlen mem path (511 + 1) = 511 + 1 := strnlen_long overlong.long
    rw [stringBytes, length]
    rfl
  have upwards : CopiesUpwards safePath path (511 + 1) := by
    intro i inside _ same
    exact overlong.user i inside (same ▸ overlong.kernel)
  have counts : (0 : BitVec 32).toNat + (511 + 1) = (BitVec.ofNat 32 pathMax).toNat := rfl
  have some_ : BitVec.ofNat 32 pathMax ≠ 0 := by decide
  have signed : (BitVec.ofNat 32 pathMax).toNat < 2 ^ 31 := by decide
  rw [← whole] at upwards
  unfold userPath userCopyStrFrom32
  rw [if_neg some_]
  constructor
  · intro reads
    have writes := overlong.buffer
    change AllFrom _ _ (511 + 1) at reads writes
    rw [← whole] at reads writes
    rw [userCopyStrFromLoop_copies counts signed upwards reads writes]
    have filled : strnlen mem path (511 + 1) = 511 + 1 := strnlen_long overlong.long
    have cut : copiedString mem safePath path (511 + 1) = Function.update
        (copied mem safePath path (511 + 1)) (safePath + BitVec.ofNat 32 511) 0 :=
      if_neg (by rw [filled]; exact lt_irrefl _)
    rw [cut]
    refine (dif_neg (by decide)).trans (congrArg Except.ok ?_)
    exact (stringAt_terminated (Function.update_self _ _ _)).trans (stringAt_congr fun i inside => by
      have before : safePath + BitVec.ofNat 32 i ≠ safePath + BitVec.ofNat 32 511 := by
        change i < 511 at inside
        bv_omega
      have offset : safePath + BitVec.ofNat 32 i - safePath = BitVec.ofNat 32 i := by
        rw [BitVec.add_comm, BitVec.add_sub_cancel]
      have small : (BitVec.ofNat 32 i).toNat < 511 + 1 := by
        change i < 511 at inside
        rw [BitVec.toNat_ofNat]
        omega
      rw [Function.update_of_ne before, copied, offset, if_pos small])
  · intro unreadable
    have faults := @userCopyStrFromLoop_faults space (BitVec.ofNat 32 pathMax) 0 511 path safePath mem
      counts signed upwards fun both => unreadable (by rw [whole] at both; exact both.1)
    generalize userCopyStrFromLoop space _ 0 path safePath mem = result at faults
    obtain ⟨st, after⟩ := result
    change st = efault at faults
    subst faults
    exact dif_pos (by decide)

end Copy

section Refusal

variable {fs fs' : FileSystem} {path : List Byte} {flags mode : BitVec 32} {mounts : Mounts} {st : Int}

theorem fsLookupVnode_error (h : fsLookupVnode path fs = .ok (.error st)) :
    st < 0 ∧ (st = -2 → ∃ relative,
      pathMakeRelative (pathMakeCanonical path) fs.mntpoint = .ok relative) := by
  unfold fsLookupVnode at h
  cases below : pathMakeRelative (pathMakeCanonical path) fs.mntpoint with
  | error failed =>
    rw [below] at h
    cases h
    unfold pathMakeRelative at below
    split at below
    · cases below
      exact ⟨by decide, fun two => absurd two (by decide)⟩
    · split at below
      · cases below
      · split at below <;> cases below
        exact ⟨by decide, fun two => absurd two (by decide)⟩
  | ok relative =>
    rw [below] at h
    obtain ⟨hit, -, h⟩ := Exec.bind_ok.mp h
    cases hit with
    | none =>
      cases h
      exact ⟨by decide, fun _ => ⟨relative, rfl⟩⟩
    | some vnode => cases h

theorem NothingDone.refl (proc : Process) (vfs : Vfs Mounts) : NothingDone proc proc vfs vfs :=
  ⟨fun _ => rfl, fun _ _ => rfl, fun _ => Iff.rfl⟩

theorem pathRefused_of_same {path : Except Errno (List Byte)} (negative : st < 0)
    (opens : ∀ answers mem proc fdt log, answers.path = path →
      mountedOpen answers mem flags mode proc ⟨fdt, mounts, log⟩ =
        .ok (st, proc, ⟨fdt, mounts, log⟩))
    (removes : mountedRmfile path mounts = .ok (st, mounts)) : PathRefused path flags mode mounts where
  opens answers mem proc fdt log same :=
    ⟨st, proc, _, opens answers mem proc fdt log same, negative, .refl proc _⟩
  removes := ⟨st, mounts, removes, negative, fun _ => Iff.rfl⟩

theorem pathRefused_error (failed : Errno) : PathRefused (.error failed) flags mode mounts := by
  refine pathRefused_of_same failed.2 (fun answers mem proc fdt log same => ?_) rfl
  unfold mountedOpen
  rw [same]

theorem pathRefused_relative (relative : ¬ Absolute path) :
    PathRefused (.ok path) flags mode mounts := by
  have negative : (-22 : Int) < 0 := by decide
  refine pathRefused_of_same negative (fun answers mem proc fdt log same => ?_) (if_pos relative)
  unfold mountedOpen
  rw [same]
  exact if_pos relative

theorem NamesNothing.refused (absolute : Absolute path) (nothing : NamesNothing path flags mounts) :
    PathRefused (.ok path) flags mode mounts := by
  obtain ⟨fs, st, owner, missed, given⟩ := nothing
  exact pathRefused_of_same (fsLookupVnode_error missed).1
    (fun answers mem proc fdt log same => mountedOpen_failed same absolute owner missed given)
    (mountedRmfile_failed absolute owner missed)

theorem fsMkfile_made {fresh : VirtualNodeRef} {uid gid : BitVec 32} {relative : List Byte}
    {res : Except Int Nat} (unused : ∀ vnode ∈ fs.vnodeLl, vnode.addr ≠ fresh)
    (below : pathMakeRelative (pathMakeCanonical path) fs.mntpoint = .ok relative)
    (h : fsMkfile ⟨true, true⟩ fresh path mode uid gid fs = .ok (res, fs')) :
    ∃ ctx vnode, vnode.addr = fresh ∧
      fs' = { fs with driverCtx := ctx, vnodeLl := fs.vnodeLl ++ [vnode] } := by
  unfold fsMkfile at h
  rw [below] at h
  obtain ⟨parent, -, h⟩ := Exec.bind_ok.mp h
  obtain ⟨name, -, h⟩ := Exec.bind_ok.mp h
  have driven : ramfsMkfile ⟨true, true⟩ fresh (parent.map VirtualNode.addr) name mode uid gid fs =
      .ok (res, fs') := by
    unfold FileSystem.mkfile at h
    split at h
    · cases h
    · exact h
    · exact h
  have initialized : fs.driverCtx ≠ none := by
    intro none
    unfold ramfsMkfile at driven
    rw [none] at driven
    cases driven
  obtain ⟨ctx, n, made⟩ := @ramfsMkfile_made fs fresh (parent.map VirtualNode.addr) name mode uid gid
    initialized unused
  cases made.symm.trans driven
  exact ⟨some ctx, _, rfl, rfl⟩

/-- The answers that let every open succeed. -/
def readyAnswers (path : List Byte) : FileAnswers := ⟨.ok path, ⟨true, true⟩, 0, 0⟩

def readyMem : OpenMem := ⟨true, ⟨true, true, true⟩⟩

theorem vfsOpenVnode_ready (addr : VirtualNodeRef) (log : List FdEvent) :
    (vfsOpenVnode (mountedFileSystems (readyAnswers path)) readyMem addr flags rootProcess
      ⟨HashTable.init sha1OfKeys, mounts, log⟩).1 = 0 := by
  have some_ : (vfsFdtNewSysfd ⟨true, true, true⟩ (BitVec.ofInt 32 0) (procNewFd true rootProcess).2.pid
      (HashTable.init sha1OfKeys)).1.isSome := by
    decide
  have picked : procNewFd true rootProcess = (0, (procNewFd true rootProcess).2) := by decide
  have valid : ¬ (0 : Int) < 0 := by decide
  unfold vfsOpenVnode readyMem
  dsimp only
  rw [picked]
  dsimp only
  rw [if_neg valid]
  rcases made : vfsFdtNewSysfd ⟨true, true, true⟩ (BitVec.ofInt 32 0)
    (procNewFd true rootProcess).2.pid (HashTable.init sha1OfKeys) with ⟨_ | sysfd, fdt⟩
  · rw [made] at some_
    cases some_
  · rfl

theorem PathRefused.nothing (apart : mounts.Apart) (absolute : Absolute path)
    (refused : PathRefused (.ok path) flags mode mounts) : NamesNothing path flags mounts := by
  obtain ⟨st, proc', vfs', called, failed, nothing⟩ := refused.opens (readyAnswers path) readyMem
    rootProcess (HashTable.init sha1OfKeys) [] rfl
  rcases mountedOpen_cases called with ⟨relative, -, -⟩ | ⟨path, fs, copied, -, owner, ends⟩
  · exact absurd absolute (relative path rfl)
  cases copied
  rcases ends with ⟨vnode, -, opened⟩ | ⟨missed, given, -, -⟩ | ⟨missing, creat⟩
  · have zero := @vfsOpenVnode_ready path flags mounts vnode.addr []
    rw [opened] at zero
    exact absurd failed (by dsimp only at zero; omega)
  · exact ⟨fs, st, owner, missed, given⟩
  · exfalso
    obtain ⟨relative, below⟩ := (fsLookupVnode_error missing).2 rfl
    obtain ⟨res, fs', made, rfl, rfl, -⟩ :=
      (mountedOpen_create rfl absolute owner missing creat).mp called
    have member := (vfsTopmostFsForPath_ok.mp owner).mem
    obtain ⟨ctx, vnode, new, rfl⟩ := fsMkfile_made (fun vnode inside => Nat.ne_of_lt
      (apart.allocated vnode (mem_vnodes.mpr ⟨fs, member, inside⟩))) below made
    have spread := (@Mounts.Apart.mkfile _ apart fs
      { fs with driverCtx := ctx, vnodeLl := fs.vnodeLl ++ [vnode] } member ⟨rfl, rfl⟩ _ rfl
      (.inr ⟨_, rfl, new⟩)).2 vnode
    have old := (nothing.vnodes vnode).mp (spread.mpr (.inr List.mem_cons_self))
    exact Nat.ne_of_lt (apart.allocated vnode old) new

end Refusal

/-- A path that is too long is refused where it cannot be read, and where what is left of it is no
    absolute path or names nothing. -/
theorem overlong_refused_iff (space : PageRights) (path safePath : Ptr) (mem : Ptr → Byte)
    (flags mode : BitVec 32) (mounts : Mounts) (overlong : Overlong space path safePath mem)
    (apart : mounts.Apart) :
    PathRefused (userPath space path safePath mem) flags mode mounts ↔
      (AllFrom space.mayReadLong path pathMax → Absolute (stringAt mem path (pathMax - 1)) →
        NamesNothing (stringAt mem path (pathMax - 1)) flags mounts) := by
  obtain ⟨readable, unreadable⟩ := userPath_overlong overlong
  by_cases reads : AllFrom space.mayReadLong path pathMax
  · rw [readable reads]
    constructor
    · exact fun refused _ absolute => refused.nothing apart absolute
    · intro nothing
      by_cases absolute : Absolute (stringAt mem path (pathMax - 1))
      · exact (nothing reads absolute).refused absolute
      · exact pathRefused_relative absolute
  · rw [unreadable reads]
    exact ⟨fun _ reads' => absurd reads' reads, fun _ => pathRefused_error _⟩

def allPages : PageRights := ⟨fun _ => true, fun _ => true⟩

/-- A slash and 512 letters. -/
def longName : Ptr → Byte := fun addr =>
  if addr = 0x1000 then slash else if addr.toNat - 0x1000 ≤ 512 then 0x62 else 0

theorem overlong_refused_longName :
    PathRefused (userPath allPages 0x1000 0xc0100000 longName) 0x1 0 onRootRamfs.world := by
  have overlong : Overlong allPages 0x1000 0xc0100000 longName := by
    refine ⟨by decide +kernel, ?_, by unfold InKernel; decide, fun _ _ => rfl⟩
    unfold InKernel
    decide +kernel
  refine (overlong_refused_iff allPages 0x1000 0xc0100000 longName 0x1 0 onRootRamfs.world overlong
    onRootRamfs_linked.1).mpr fun _ _ => ?_
  have owner : vfsTopmostFsForPath (stringAt longName 0x1000 511) [rootRamfs] = .ok rootRamfs := by
    decide +kernel
  have missed : fsLookupVnode (stringAt longName 0x1000 511) rootRamfs = .ok (.error (-2)) := by
    decide +kernel
  exact ⟨rootRamfs, -2, owner, missed, fun _ => rfl⟩

/-- 510 slashes and `ab`. -/
def slashesAb : Ptr → Byte := fun addr =>
  if addr.toNat - 0x1000 < 510 then slash
  else if addr.toNat - 0x1000 = 510 then 0x61
  else if addr.toNat - 0x1000 = 511 then 0x62
  else 0

/-- A ramfs on `/` with a file `a`. -/
def rootWithA : Mounts :=
  ⟨[{ rootRamfs with vnodeLl := rootRamfs.vnodeLl ++ [ramfsVnode 3 [0x61] 2 0x8000 (some 2)] }], 4, []⟩

/-- `/a` is removed in the place of `/ab`. -/
theorem not_refused_slashesAb :
    Overlong allPages 0x1000 0xc0100000 slashesAb ∧ rootWithA.Apart ∧
      (mountedRmfile (userPath allPages 0x1000 0xc0100000 slashesAb) rootWithA).map (fun result =>
        (result.1, result.2.vnodes.map VirtualNode.addr)) = .ok (0, [2]) ∧
      ¬ PathRefused (userPath allPages 0x1000 0xc0100000 slashesAb) 0x1 0 rootWithA := by
  have overlong : Overlong allPages 0x1000 0xc0100000 slashesAb := by
    refine ⟨by decide +kernel, ?_, by unfold InKernel; decide, fun _ _ => rfl⟩
    unfold InKernel
    decide +kernel
  have removed : (mountedRmfile (.ok (stringAt slashesAb 0x1000 511)) rootWithA).map (fun result =>
      (result.1, result.2.vnodes.map VirtualNode.addr)) = .ok (0, [2]) := by
    decide +kernel
  have copied := (userPath_overlong overlong).1 fun _ _ => rfl
  rw [copied]
  refine ⟨overlong, ⟨⟨by decide, by decide⟩, by decide, by decide⟩, removed, fun refused => ?_⟩
  obtain ⟨st, mounts', called, failed, -⟩ := refused.removes
  change mountedRmfile (.ok (stringAt slashesAb 0x1000 511)) rootWithA = _ at called
  rw [called] at removed
  have zero : st = 0 := (Prod.mk.inj (Except.ok.inj removed)).1
  omega

end Dxgmx
