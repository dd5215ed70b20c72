import Dxgmx.Fs.FileLookup

open Library

namespace Dxgmx

/-- There is memory for the vnode of a new file, and a free `RamFsFileData` or memory for more. -/
def MkfileMem.Enough (mem : MkfileMem) (fs : FileSystem) : Prop :=
  mem.vnode = true ∧ ∀ ctx, fs.driverCtx = some ctx →
    false ∈ ctx.files.drop ctx.fileCursor ∨ mem.files = true

/-- `vfs_open` makes a file: the path is not there, but what stands above it is. -/
structure MakesFile (path : List Byte) (flags : BitVec 32) (mem : MkfileMem) (fs : FileSystem) :
    Prop where
  absolute : Absolute path
  missing : fsLookupVnode path fs = .ok (.error (-2))
  creat : flags &&& 0x8 ≠ 0
  above : ∃ before name dir,
    pathMakeRelative (pathMakeCanonical path) fs.mntpoint = .ok (before ++ slash :: name) ∧
      slash ∉ name ∧ fsLookupVnodeCachedRelative (directoryPart before) fs = .ok (some dir)
  enough : mem.Enough fs

variable {fs fs' : FileSystem} {path before name : List Byte} {fresh : VirtualNodeRef}

theorem ramfsFindLoop_isSome (idx : Nat) (files : List Bool) :
    (ramfsFindLoop idx files).isSome ↔ false ∈ files := by
  induction files generalizing idx with
  | nil => simp [ramfsFindLoop]
  | cons used rest ih =>
    rw [ramfsFindLoop]
    cases used with
    | true => simp [ih]
    | false => simp

theorem ramfsMkfile_enough {mem : MkfileMem} {dir : Option VirtualNodeRef} {mode uid gid : BitVec 32}
    (initialized : fs.driverCtx ≠ none) {res : Except Int Nat}
    (made : ramfsMkfile mem fresh dir name mode uid gid fs = .ok (res, fs')) :
    mem.Enough fs ↔ ∃ n, res = .ok n := by
  obtain ⟨ctx, here⟩ := Option.ne_none_iff_exists'.mp initialized
  have only : mem.Enough fs ↔ mem.vnode = true ∧
      (false ∈ ctx.files.drop ctx.fileCursor ∨ mem.files = true) := by
    unfold MkfileMem.Enough
    simp [here]
  have free := ramfsFindLoop_isSome ctx.fileCursor (ctx.files.drop ctx.fileCursor)
  rw [only, ← free]
  obtain ⟨vnode, files⟩ := mem
  unfold ramfsMkfile fsNewVnodeCache ramfsFindNextAvailFd at made
  rw [here] at made
  cases vnode with
  | false =>
    cases made
    simp
  | true =>
    have full : ¬ true = false := by decide
    dsimp only at made
    rw [if_neg full] at made
    dsimp only at made
    cases found : ramfsFindLoop ctx.fileCursor (ctx.files.drop ctx.fileCursor) with
    | some idx =>
      rw [found] at made
      cases made
      simp
    | none =>
      rw [found] at made
      cases files <;> cases made <;> simp

theorem fsLookupVnode_missed {relative : List Byte}
    (below : pathMakeRelative (pathMakeCanonical path) fs.mntpoint = .ok relative)
    (missing : fsLookupVnode path fs = .ok (.error (-2))) (linked : fs.Linked) :
    fsLookupVnodeCachedRelative relative fs = .ok none := by
  rw [linked.lookup]
  cases hit : fs.vnodeLl.find? fun vnode => fsVnodePath fs vnode = .ok relative with
  | none => rfl
  | some vnode =>
    have found := fsLookupVnode_found.mpr ⟨relative, below, (linked.lookup relative).trans
      (congrArg Except.ok hit)⟩
    rw [missing] at found
    cases found

/-- A vnode that has no directory is found by its name alone, which has no slash. -/
theorem FileSystem.Linked.lookup_orphan (linked : fs.Linked) {ctx : Option RamFsMetadata}
    {vnode : VirtualNode} (top : vnode.parent = none) (last : slash ∉ vnode.name)
    (named : vnode.name ≠ [])
    (missing : fsLookupVnodeCachedRelative (before ++ slash :: name) fs = .ok none) :
    fsLookupVnodeCachedRelative (before ++ slash :: name) (fs.withVnode ctx vnode) = .ok none := by
  rw [linked.lookup] at missing
  have none := List.find?_eq_none.mp (Except.ok.inj missing)
  have alone : ∃ found, fsVnodePath (fs.withVnode ctx vnode) vnode = .ok found ∧
      slash ∉ found := by
    show ∃ found, fsVnodePathLoop _ (511 + 1) [] false vnode = .ok found ∧ _
    rw [fsVnodePathLoop]
    dsimp only
    split
    · exact ⟨[], rfl, List.not_mem_nil⟩
    · rw [if_neg (by simpa using named), top]
      exact ⟨vnode.name, by simp, last⟩
  have loop (rest : List VirtualNode) (sub : ∀ other ∈ rest, other ∈ fs.vnodeLl) :
      fsLookupVnodeCachedRelativeLoop (before ++ slash :: name) (fs.withVnode ctx vnode)
        (rest ++ [vnode]) = .ok .none := by
    induction rest with
    | nil =>
      obtain ⟨found, atPath, plain⟩ := alone
      rw [List.nil_append, fsLookupVnodeCachedRelativeLoop_cons atPath, if_neg]
      · rfl
      · rintro rfl
        exact plain (List.mem_append_right _ List.mem_cons_self)
    | cons other rest ih =>
      have inside := sub other List.mem_cons_self
      obtain ⟨found, atPath, -⟩ := linked.atPath inside
      have different : found ≠ before ++ slash :: name := by
        rintro rfl
        exact none other inside (decide_eq_true atPath)
      rw [← linked.path_concat ctx vnode inside] at atPath
      rw [List.cons_append, fsLookupVnodeCachedRelativeLoop_cons atPath, if_neg different]
      exact ih fun later member => sub later (List.mem_cons_of_mem _ member)
  exact loop fs.vnodeLl fun _ member => member

section Open

variable {answers : FileAnswers} {mem : OpenMem} {flags mode : BitVec 32} {proc proc' : Process}
  {vfs vfs' : Vfs Mounts} {st : Int}

def OpenMakes (answers : FileAnswers) (flags : BitVec 32) (mounts : Mounts) : Prop :=
  ∃ path fs, answers.path = .ok path ∧ vfsTopmostFsForPath path mounts.filesystems = .ok fs ∧
    MakesFile path flags answers.mkfile fs

/-- The file is made and found again, and then `vfs_open` says that it is not there. -/
theorem mountedOpen_makes (apart : vfs.world.Apart) (linked : ∀ fs ∈ vfs.world.filesystems, fs.Linked)
    (short : ∀ path, answers.path = .ok path → path.length < pathMax)
    (makes : OpenMakes answers flags vfs.world) :
    ∃ vfs', mountedOpen answers mem flags mode proc vfs = .ok (-2, proc, vfs') ∧
      ¬ NoneNew vfs.world vfs'.world := by
  obtain ⟨path, fs, copied, owner, ⟨absolute, missing, creat, ⟨before, name, dir, below, last, found⟩,
    enough⟩⟩ := makes
  have member := (vfsTopmostFsForPath_ok.mp owner).mem
  have tree := linked fs member
  have unused (vnode : VirtualNode) (inside : vnode ∈ fs.vnodeLl) : vnode.addr ≠ vfs.world.fresh :=
    Nat.ne_of_lt (apart.allocated vnode (mem_vnodes.mpr ⟨fs, member, inside⟩))
  obtain ⟨res, fs', done⟩ := @ramfsMkfile_total fs answers.mkfile vfs.world.fresh (some dir.addr) name
    mode 0 0 tree.initialized
  obtain ⟨n, rfl⟩ := (ramfsMkfile_enough tree.initialized done).mp enough
  have made := (fsMkfile_append tree.makesFiles below last found).trans done
  have fits : (before ++ slash :: name).length < pathMax :=
    Nat.lt_of_le_of_lt (Nat.le_trans (pathMakeRelative_suffix below).length_le
      (pathMakeCanonical_length path)) (short path copied)
  have nowhere : ¬ ∃ vnode, fsLookupVnode path fs = .ok (.ok vnode) := by
    rintro ⟨vnode, there⟩
    rw [missing] at there
    cases there
  obtain ⟨vnode, again, -⟩ := ((tree.madeRight unused below last found made nowhere).mpr fits).found
  refine ⟨_, (mountedOpen_create copied absolute owner missing creat).mpr
    ⟨.ok n, fs', made, rfl, rfl, .inr ⟨rfl, n, vnode, rfl, again⟩⟩, fun none => ?_⟩
  obtain ⟨ctx, rfl⟩ := tree.fsMkfile_ok unused below last found made
  have spread := (@Mounts.Apart.mkfile _ apart fs (fs.withVnode (some ctx) ⟨vfs.world.fresh, name, n, 0,
    mode, 0, false, some dir.addr, 0, 0, .driver fs.driver, 0⟩) member ⟨rfl, rfl⟩ _ rfl
    (.inr ⟨_, rfl, rfl⟩)).2
  obtain ⟨old, inside, same⟩ := none _ ((spread _).mpr (.inr List.mem_cons_self))
  exact Nat.ne_of_lt (apart.allocated old inside) same

theorem noneNew_setFs (apart : vfs.world.Apart) (member : fs ∈ vfs.world.filesystems)
    (ctx : Option RamFsMetadata) (fresh : Nat) :
    NoneNew vfs.world { vfs.world.setFs { fs with driverCtx := ctx } with fresh := fresh } := by
  intro vnode inside
  have spread := (@Mounts.Apart.mkfile _ apart fs { fs with driverCtx := ctx } member ⟨rfl, rfl⟩ []
    (List.append_nil _).symm (.inl rfl)).2
  rcases (spread vnode).mp inside with old | new
  · exact ⟨vnode, old, rfl⟩
  · cases new

/-- What `vfs_open` does where a file was to be made, but the call makes none. -/
theorem noneNew_create (apart : vfs.world.Apart) (linked : ∀ fs ∈ vfs.world.filesystems, fs.Linked)
    (copied : answers.path = .ok path) (absolute : Absolute path)
    (owner : vfsTopmostFsForPath path vfs.world.filesystems = .ok fs)
    (missing : fsLookupVnode path fs = .ok (.error (-2))) (creat : flags &&& 0x8 ≠ 0)
    (none : ¬ OpenMakes answers flags vfs.world)
    (h : mountedOpen answers mem flags mode proc vfs = .ok (st, proc', vfs')) :
    NoneNew vfs.world vfs'.world := by
  have member := (vfsTopmostFsForPath_ok.mp owner).mem
  have tree := linked fs member
  have unused (vnode : VirtualNode) (inside : vnode ∈ fs.vnodeLl) : vnode.addr ≠ vfs.world.fresh :=
    Nat.ne_of_lt (apart.allocated vnode (mem_vnodes.mpr ⟨fs, member, inside⟩))
  obtain ⟨res, fs', made, rfl, rfl, outcome⟩ :=
    (mountedOpen_create copied absolute owner missing creat).mp h
  cases below : pathMakeRelative (pathMakeCanonical path) fs.mntpoint with
  | error failed =>
    unfold fsMkfile at made
    rw [below] at made
    cases made
    exact noneNew_setFs apart member fs.driverCtx _
  | ok relative =>
    by_cases slashed : slash ∈ relative
    · obtain ⟨before, name, rfl, last⟩ := exists_last_slash slashed
      have missed := fsLookupVnode_missed below missing tree
      have named := tree.name_ne_nil below missed
      rw [fsMkfile_append tree.makesFiles below last (tree.lookup _)] at made
      have room := ramfsMkfile_enough tree.initialized made
      obtain ⟨ctx, ⟨rfl, rfl⟩ | ⟨n, rfl, rfl⟩⟩ := ramfsMkfile_ok unused made
      · exact noneNew_setFs apart member (some ctx) _
      · exfalso
        cases found : fs.vnodeLl.find? fun vnode => fsVnodePath fs vnode = .ok (directoryPart before) with
        | some dir =>
          refine none ⟨path, fs, copied, owner, absolute, missing, creat,
            ⟨before, name, dir, below, last, ?_⟩, room.mpr ⟨n, rfl⟩⟩
          rw [tree.lookup, found]
        | none =>
          rcases outcome with failed | ⟨-, _, vnode, -, again⟩
          · cases failed
          · obtain ⟨relative', same, hit⟩ := fsLookupVnode_found.mp again
            cases below.symm.trans same
            have lost := @FileSystem.Linked.lookup_orphan _ _ _ tree (some ctx)
              ⟨vfs.world.fresh, name, n, 0, mode, 0, false, .none, 0, 0, .driver fs.driver, 0⟩ rfl last
              named missed
            rw [found] at hit
            cases lost.symm.trans hit
    · rw [fsMkfile_no_slash below slashed] at made
      cases made

theorem mountedOpen_clean (apart : vfs.world.Apart)
    (linked : ∀ fs ∈ vfs.world.filesystems, fs.Linked) (none : ¬ OpenMakes answers flags vfs.world)
    (h : mountedOpen answers mem flags mode proc vfs = .ok (st, proc', vfs')) :
    NoneNew vfs.world vfs'.world := by
  rcases mountedOpen_cases h with ⟨-, rfl, rfl⟩ | ⟨path, fs, copied, absolute, owner, ends⟩
  · exact noneNew_refl _
  rcases ends with ⟨vnode, found, opened⟩ | ⟨-, -, rfl, rfl⟩ | ⟨missing, creat⟩
  · rcases vfsOpenVnode_world opened with kept | increased
    · rw [kept]
      exact noneNew_refl _
    · rw [increased]
      exact noneNew_increase _ _
  · exact noneNew_refl _
  · exact noneNew_create apart linked copied absolute owner missing creat none h

end Open

/-- Where a file can be made the call opens it, and where the call fails it makes no vnode. -/
structure OpenAgrees (answers : FileAnswers) (mem : OpenMem) (flags mode : BitVec 32) (proc : Process)
    (vfs : Vfs Mounts) : Prop where
  created : ∀ path fs, answers.path = .ok path → Absolute path →
    vfsTopmostFsForPath path vfs.world.filesystems = .ok fs →
    fsLookupVnode path fs = .ok (.error (-2)) → HasDirectory path fs → flags &&& 0x8 ≠ 0 →
    answers.mkfile = ⟨true, true⟩ → mem = ⟨true, ⟨true, true, true⟩⟩ → answers.opsOpen = 0 →
    ∃ fd proc' vfs' sysfd vnode, mountedOpen answers mem flags mode proc vfs = .ok (fd, proc', vfs') ∧
      0 ≤ fd ∧ vfsFdtGetSysfd (BitVec.ofInt 32 fd) proc.pid vfs'.fdt = some sysfd ∧
      sysfd.vnode = vnode.addr ∧ (∀ old ∈ vfs.world.vnodes, old.addr ≠ vnode.addr) ∧
      mountedLookup path vfs'.world = .ok (.ok vnode)
  clean : ∀ st proc' vfs', mountedOpen answers mem flags mode proc vfs = .ok (st, proc', vfs') →
    st < 0 → NoneNew vfs.world vfs'.world

/-- The result of `vfs_open` and what it did agree exactly where it makes no file. -/
theorem openAgrees_iff (answers : FileAnswers) (mem : OpenMem) (flags mode : BitVec 32)
    (proc : Process) (vfs : Vfs Mounts) (apart : vfs.world.Apart)
    (linked : ∀ fs ∈ vfs.world.filesystems, fs.Linked)
    (short : ∀ path, answers.path = .ok path → path.length < pathMax) :
    OpenAgrees answers mem flags mode proc vfs ↔ ¬ OpenMakes answers flags vfs.world := by
  constructor
  · intro agrees makes
    obtain ⟨vfs', called, new⟩ := mountedOpen_makes apart linked short makes
    exact new (agrees.clean (-2) proc vfs' called (by decide))
  · intro none
    constructor
    · intro path fs copied absolute owner missing there creat plenty
      obtain ⟨before, name, dir, below, last, found, -⟩ := there
      refine absurd ⟨path, fs, copied, owner, absolute, missing, creat,
        ⟨before, name, dir, below, last, found⟩, ?_⟩ none
      rw [plenty]
      exact ⟨rfl, fun _ _ => .inr rfl⟩
    · intro st proc' vfs' called _
      exact mountedOpen_clean apart linked none called

/-- A ramfs on `/` that has its root only. -/
def onRootRamfs : Vfs Mounts := ⟨HashTable.init fun _ => .error 0, ⟨[rootRamfs], 3, []⟩, []⟩

theorem onRootRamfs_linked :
    onRootRamfs.world.Apart ∧ ∀ fs ∈ onRootRamfs.world.filesystems, fs.Linked := by
  refine ⟨⟨⟨by decide, by decide⟩, by decide, by decide⟩, fun fs member => ?_⟩
  rw [List.mem_singleton.mp member]
  exact linked_rootRamfs

def rootProcess : Process := ⟨1, [], 0, false, 0⟩

/-- `/` is opened with `O_CREAT`. -/
theorem openAgrees_root :
    OpenAgrees ⟨.ok [slash], ⟨true, true⟩, 0, 0⟩ ⟨true, ⟨true, true, true⟩⟩ 0x9 0x8000 rootProcess
      onRootRamfs := by
  refine (openAgrees_iff _ _ _ _ _ _ onRootRamfs_linked.1 onRootRamfs_linked.2
    (fun path copied => ?_)).mpr ?_
  · cases copied
    decide
  · rintro ⟨path, fs, copied, owner, makes⟩
    cases copied
    have member := (vfsTopmostFsForPath_ok.mp owner).mem
    have same : fs = rootRamfs := List.mem_singleton.mp member
    have there : fsLookupVnode [slash] rootRamfs = .ok (.ok (ramfsVnode 2 [slash] 1 0x4000 none)) := by
      decide
    have missing := makes.missing
    rw [same, there] at missing
    cases missing

/-- `/a` is made and not opened. -/
theorem not_openAgrees_a :
    ¬ OpenAgrees ⟨.ok [slash, 0x61], ⟨true, true⟩, 0, 0⟩ ⟨true, ⟨true, true, true⟩⟩ 0x9 0x8000
      rootProcess onRootRamfs := by
  intro agrees
  have called : (mountedOpen ⟨.ok [slash, 0x61], ⟨true, true⟩, 0, 0⟩ ⟨true, ⟨true, true, true⟩⟩ 0x9
      0x8000 rootProcess onRootRamfs).map (fun result =>
        (result.1, result.2.2.world.vnodes.map VirtualNode.addr)) = .ok (-2, [2, 3]) := by
    decide
  cases result : mountedOpen ⟨.ok [slash, 0x61], ⟨true, true⟩, 0, 0⟩ ⟨true, ⟨true, true, true⟩⟩ 0x9
      0x8000 rootProcess onRootRamfs with
  | error stop =>
    rw [result] at called
    cases called
  | ok after =>
    obtain ⟨st, proc', vfs'⟩ := after
    rw [result] at called
    obtain ⟨status, addrs⟩ := Prod.mk.inj (Except.ok.inj called)
    have none := agrees.clean st proc' vfs' result (by rw [show st = -2 from status]; decide)
    have new : 3 ∈ vfs'.world.vnodes.map VirtualNode.addr := by
      change vfs'.world.vnodes.map VirtualNode.addr = [2, 3] at addrs
      rw [addrs]
      decide
    obtain ⟨vnode, inside, three⟩ := List.mem_map.mp new
    obtain ⟨old, member, same⟩ := none vnode inside
    have only : ∀ old ∈ onRootRamfs.world.vnodes, old.addr ≠ 3 := by decide
    exact only old member (same.trans three)

end Dxgmx
