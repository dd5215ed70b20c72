import Dxgmx.Fs.MountUndo
import Dxgmx.Fs.PathCreation
import Dxgmx.Fs.SoundMounts

open Library

namespace Dxgmx

variable {fs fs' : FileSystem} {path : List Byte}

theorem ramfsMkfile_total {mem : MkfileMem} {fresh : VirtualNodeRef} {dir : Option VirtualNodeRef}
    {name : List Byte} {mode uid gid : BitVec 32} (initialized : fs.driverCtx ≠ none) :
    ∃ res fs', ramfsMkfile mem fresh dir name mode uid gid fs = .ok (res, fs') := by
  obtain ⟨ctx, here⟩ := Option.ne_none_iff_exists'.mp initialized
  unfold ramfsMkfile
  rw [here]
  dsimp only
  split
  · exact ⟨_, _, rfl⟩
  · split
    · exact ⟨_, _, rfl⟩
    · exact ⟨_, _, rfl⟩

theorem ramfsMkfile_made {fresh : VirtualNodeRef} {dir : Option VirtualNodeRef}
    {name : List Byte} {mode uid gid : BitVec 32} (initialized : fs.driverCtx ≠ none)
    (unused : ∀ vnode ∈ fs.vnodeLl, vnode.addr ≠ fresh) :
    ∃ ctx n, ramfsMkfile ⟨true, true⟩ fresh dir name mode uid gid fs = .ok (.ok n, { fs with
      driverCtx := some ctx
      vnodeLl := fs.vnodeLl ++
        [⟨fresh, name, n, 0, mode, 0, false, dir, uid, gid, .driver fs.driver, 0⟩] }) := by
  obtain ⟨res, fs', made⟩ := @ramfsMkfile_total fs ⟨true, true⟩ fresh dir name mode uid gid initialized
  obtain ⟨ctx, ⟨rfl, -⟩ | ⟨n, rfl, rfl⟩⟩ := ramfsMkfile_ok unused made
  · exfalso
    obtain ⟨ctx, here⟩ := Option.ne_none_iff_exists'.mp initialized
    have full : ¬ true = false := by decide
    unfold ramfsMkfile fsNewVnodeCache ramfsFindNextAvailFd at made
    rw [here, if_neg full] at made
    dsimp only at made
    split at made
    · rename_i failed
      split at failed
      · cases failed
      · rw [if_neg full] at failed
        cases failed
    · cases made
  · exact ⟨ctx, n, made⟩

/-- Making a file in a driver that can, where the relative path has a directory part. -/
theorem fsMkfile_append {mem : MkfileMem} {fresh : VirtualNodeRef} {mode uid gid : BitVec 32}
    {before name : List Byte} {parent : Option VirtualNode} (makesFiles : fs.driver ≠ .fatfs)
    (below : pathMakeRelative (pathMakeCanonical path) fs.mntpoint = .ok (before ++ slash :: name))
    (last : slash ∉ name)
    (dir : fsLookupVnodeCachedRelative (directoryPart before) fs = .ok parent) :
    fsMkfile mem fresh path mode uid gid fs =
      ramfsMkfile mem fresh (parent.map VirtualNode.addr) name mode uid gid fs := by
  unfold fsMkfile
  rw [below]
  dsimp only
  rw [fsGetDirVnodeForFile_append last, dir]
  show (pathMakeFilename (before ++ slash :: name) >>= _) = _
  rw [pathMakeFilename_append last]
  show fs.mkfile mem fresh (parent.map VirtualNode.addr) name mode uid gid = _
  unfold FileSystem.mkfile
  cases driver : fs.driver with
  | fatfs => exact absurd driver makesFiles
  | ramfs => rfl
  | devfs => rfl

/-- Without a slash the assertion of `fs_get_dir_vnode_for_file` fails. -/
theorem fsMkfile_no_slash {mem : MkfileMem} {fresh : VirtualNodeRef} {mode uid gid : BitVec 32}
    {relative : List Byte}
    (below : pathMakeRelative (pathMakeCanonical path) fs.mntpoint = .ok relative)
    (none : slash ∉ relative) : fsMkfile mem fresh path mode uid gid fs = .error .panic := by
  unfold fsMkfile fsGetDirVnodeForFile
  rw [below]
  dsimp only
  rw [strrchr_none (by decide) none]
  rfl

/-- The string that `user_copy_str_from` copies of one that may be longer. -/
def userCopyStrFrom (str : List Byte) (maxn : Nat) : List Byte := str.take (maxn - 1)

/-- A vnode with a name, below a directory of its file system. -/
def Placed (fs : FileSystem) (vnode : VirtualNode) : Prop :=
  vnode.name ≠ [] ∧ ∃ dir ∈ fs.vnodeLl, vnode.parent = some dir.addr ∧ dir.IsDir

/-- Every vnode that a call made has a name and a directory. -/
def NewPlaced (mounts mounts' : Mounts) : Prop :=
  ∀ fs ∈ mounts'.filesystems, ∀ vnode ∈ fs.vnodeLl,
    (∃ old ∈ mounts.vnodes, old.addr = vnode.addr) ∨ Placed fs vnode

/-- Where a file has to be made, there is a directory to make it in. -/
def Creatable (path : List Byte) (flags : BitVec 32) (mounts : Mounts) : Prop :=
  Absolute path → flags &&& 0x8 ≠ 0 →
    ∀ fs relative, vfsTopmostFsForPath path mounts.filesystems = .ok fs →
      pathMakeRelative (pathMakeCanonical path) fs.mntpoint = .ok relative →
      fsLookupVnodeCachedRelative relative fs = .ok none →
      ∃ before name dir, relative = before ++ slash :: name ∧ slash ∉ name ∧
        fsLookupVnodeCachedRelative (directoryPart before) fs = .ok (some dir) ∧ dir.IsDir

variable {mounts mounts' : Mounts}

/-- The path below the mountpoint of what is not there: it has no double slash and a name at its
    end. -/
theorem relative_name (sound : fs.Sound) (mounted : fs.mntpoint ≠ []) {relative : List Byte}
    (below : pathMakeRelative (pathMakeCanonical path) fs.mntpoint = .ok relative)
    (missing : fsLookupVnodeCachedRelative relative fs = .ok none) {before name : List Byte}
    (split : relative = before ++ slash :: name) : SingleSlashes relative ∧ name ≠ [] := by
  obtain ⟨single, ends⟩ := singleSlashes_pathMakeCanonical path
  refine ⟨List.IsChain.suffix single (pathMakeRelative_suffix below), ?_⟩
  rintro rfl
  obtain ⟨front, whole⟩ := pathMakeRelative_suffix below
  have alone : pathMakeCanonical path = [slash] := by
    apply ends
    rw [← whole, split, ← List.append_assoc, List.getLast?_concat]
  -- so what is looked for is the root, which is there
  have same : relative = [slash] := by
    by_cases root : fs.mntpoint = [slash]
    · rw [root, pathMakeRelative_root (by rw [alone]; exact List.cons_ne_nil _ _), alone] at below
      exact (Except.ok.inj below).symm
    · have joined := pathMakeRelative_ok root below
      have long := congrArg List.length joined
      rw [alone, split, List.length_append, List.length_append] at long
      have some := List.length_pos_iff.mpr mounted
      simp only [List.length_singleton] at long
      omega
  obtain ⟨root, inside, top⟩ := sound.rooted
  rcases sound.lookup relative with ⟨vnode, -, found, -⟩ | ⟨-, none⟩
  · rw [found] at missing
    cases missing
  · apply none root inside
    have name := (sound.roots root inside top).1
    rw [fsVnodePath_root fs top (sound.named root inside) (by rw [name]; decide), name, same]

def NoneNew (mounts mounts' : Mounts) : Prop :=
  ∀ vnode ∈ mounts'.vnodes, ∃ old ∈ mounts.vnodes, old.addr = vnode.addr

theorem noneNew_refl (mounts : Mounts) : NoneNew mounts mounts :=
  fun vnode inside => ⟨vnode, inside, rfl⟩

theorem NoneNew.trans {last : Mounts} (first : NoneNew mounts mounts')
    (second : NoneNew mounts' last) : NoneNew mounts last := by
  intro vnode inside
  obtain ⟨middle, there, same⟩ := second vnode inside
  obtain ⟨old, before, equal⟩ := first middle there
  exact ⟨old, before, equal.trans same⟩

theorem NoneNew.newPlaced (none : NoneNew mounts mounts') : NewPlaced mounts mounts' :=
  fun fs member vnode inside => .inl (none vnode (mem_vnodes.mpr ⟨fs, member, inside⟩))

theorem noneNew_setVnode (vnode : VirtualNode) : NoneNew mounts (mounts.setVnode vnode) := by
  intro other inside
  rw [setVnode_vnodes] at inside
  obtain ⟨old, there, rfl⟩ := List.mem_map.mp inside
  refine ⟨old, there, ?_⟩
  split
  · assumption
  · rfl

theorem noneNew_rmnode (apart : mounts.Apart) {vnode : VirtualNode}
    (h : mounts.rmnode vnode = .ok mounts') : NoneNew mounts mounts' :=
  fun other inside => ⟨other, (((apart.rmnode h).2 other).mp inside).1, rfl⟩

theorem noneNew_increase (mounts : Mounts) (addr : VirtualNodeRef) :
    NoneNew mounts (vnodeIncreaseRefcount addr mounts) := by
  unfold vnodeIncreaseRefcount
  split
  · exact noneNew_refl mounts
  · exact noneNew_setVnode _

/-- A file that is not there is made, and then it is there or the second assertion of `vfs_open`
    fails. -/
theorem mountedOpen_create {answers : FileAnswers} {mem : OpenMem} {flags mode : BitVec 32}
    {proc proc' : Process} {vfs vfs' : Vfs Mounts} {st : Int} (copied : answers.path = .ok path)
    (absolute : Absolute path)
    (owner : vfsTopmostFsForPath path vfs.world.filesystems = .ok fs)
    (missing : fsLookupVnode path fs = .ok (.error (-2))) (creat : flags &&& 0x8 ≠ 0) :
    mountedOpen answers mem flags mode proc vfs = .ok (st, proc', vfs') ↔
      ∃ res fs', fsMkfile answers.mkfile vfs.world.fresh path mode 0 0 fs = .ok (res, fs') ∧
        proc' = proc ∧
        vfs' = { vfs with world := { vfs.world.setFs fs' with fresh := vfs.world.fresh + 1 } } ∧
        (res = .error st ∨
          st = -2 ∧ ∃ n vnode, res = .ok n ∧ fsLookupVnode path fs' = .ok (.ok vnode)) := by
  have lead : ¬ path.head? ≠ some slash := not_not.mpr absolute
  unfold mountedOpen
  rw [copied]
  dsimp only
  rw [if_neg lead, owner]
  show (fsLookupVnode path fs >>= _) = _ ↔ _
  rw [missing]
  show (if (-2 : Int) ≠ -2 then pure (-2, proc, vfs) else if flags &&& 0x8 = 0 then _ else _) = _ ↔ _
  rw [if_neg (by decide), if_neg creat, Exec.bind_ok]
  constructor
  · rintro ⟨⟨res, fs'⟩, made, h⟩
    refine ⟨res, fs', made, ?_⟩
    cases res with
    | error failed =>
      cases h
      exact ⟨rfl, rfl, .inl rfl⟩
    | ok n =>
      obtain ⟨again, found, h⟩ := Exec.bind_ok.mp h
      cases again with
      | error lost => cases h
      | ok vnode =>
        cases h
        exact ⟨rfl, rfl, .inr ⟨rfl, n, vnode, rfl, found⟩⟩
  · rintro ⟨res, fs', made, rfl, rfl, rfl | ⟨rfl, n, vnode, rfl, found⟩⟩
    · exact ⟨_, made, rfl⟩
    · refine ⟨_, made, ?_⟩
      dsimp only
      rw [found]
      rfl

theorem fsLookupVnode_missing {relative : List Byte}
    (below : pathMakeRelative (pathMakeCanonical path) fs.mntpoint = .ok relative)
    (none : fsLookupVnodeCachedRelative relative fs = .ok none) :
    fsLookupVnode path fs = .ok (.error (-2)) := fsLookupVnode_relative below none

theorem FileSystem.Sound.lookup_cases (sound : fs.Sound) (path : List Byte) :
    (∃ vnode ∈ fs.vnodeLl, fsLookupVnode path fs = .ok (.ok vnode)) ∨
      (∃ st, fsLookupVnode path fs = .ok (.error st) ∧ st ≠ -2) ∨
      ∃ relative, pathMakeRelative (pathMakeCanonical path) fs.mntpoint = .ok relative ∧
        fsLookupVnodeCachedRelative relative fs = .ok none := by
  cases below : pathMakeRelative (pathMakeCanonical path) fs.mntpoint with
  | error st =>
    refine .inr (.inl ⟨st, ?_, ?_⟩)
    · unfold fsLookupVnode
      rw [below]
    · unfold pathMakeRelative at below
      split at below
      · cases below
        decide
      · split at below
        · cases below
        · split at below <;> cases below
          decide
  | ok relative =>
    rcases sound.lookup relative with ⟨vnode, inside, found, -⟩ | ⟨none, -⟩
    · exact .inl ⟨vnode, inside, fsLookupVnode_relative below found⟩
    · exact .inr (.inr ⟨relative, rfl, none⟩)

/-- A file that is made in a directory is found where it was not found before. -/
theorem FileSystem.Sound.fsMkfile (sound : fs.Sound) (mounted : fs.mntpoint ≠ [])
    (short : path.length < pathMax) {fresh : VirtualNodeRef}
    (unused : ∀ vnode ∈ fs.vnodeLl, vnode.addr ≠ fresh) {before name : List Byte}
    (below : pathMakeRelative (pathMakeCanonical path) fs.mntpoint = .ok (before ++ slash :: name))
    (missing : fsLookupVnodeCachedRelative (before ++ slash :: name) fs = .ok none)
    (last : slash ∉ name) {dir : VirtualNode}
    (found : fsLookupVnodeCachedRelative (directoryPart before) fs = .ok (some dir))
    (isDir : dir.IsDir) (mem : MkfileMem) (mode uid gid : BitVec 32) :
    ∃ res fs', fsMkfile mem fresh path mode uid gid fs = .ok (res, fs') ∧ fs'.Sound ∧
      (∀ vnode ∈ fs'.vnodeLl, vnode ∈ fs.vnodeLl ∨ Placed fs' vnode) ∧
      (res = .error (-12) ∨ ∃ n vnode, res = .ok n ∧ fsLookupVnode path fs' = .ok (.ok vnode)) := by
  have made := @fsMkfile_append _ _ mem fresh mode uid gid _ _ _ sound.makesFiles below last found
  obtain ⟨single, named⟩ := relative_name sound mounted below missing rfl
  obtain ⟨res, fs', done⟩ :=
    @ramfsMkfile_total fs mem fresh (some dir.addr) name mode uid gid sound.initialized
  refine ⟨res, fs', made.trans done, ?_⟩
  obtain ⟨inside, tree⟩ : dir ∈ fs.vnodeLl ∧ TreePath fs dir (directoryPart before) := by
    rcases sound.lookup (directoryPart before) with ⟨other, inside, hit, tree⟩ | ⟨none, -⟩
    · rw [found] at hit
      cases hit
      exact ⟨inside, tree⟩
    · rw [found] at none
      cases none
  obtain ⟨ctx, ⟨rfl, rfl⟩ | ⟨n, rfl, rfl⟩⟩ := ramfsMkfile_ok unused done
  · exact ⟨sound.setCtx ctx, fun vnode member => .inl member, .inl rfl⟩
  · have fits : (before ++ slash :: name).length < pathMax :=
      Nat.lt_of_le_of_lt (Nat.le_trans (pathMakeRelative_suffix below).length_le
        (pathMakeCanonical_length path)) short
    obtain ⟨grown, atPath⟩ := @FileSystem.Sound.concat fs
      ⟨fresh, name, n, 0, mode, 0, false, some dir.addr, uid, gid, .driver fs.driver, 0⟩ _ sound dir _ unused named inside rfl isDir
      tree (treePath_below sound single inside tree) fits rfl (some ctx) nofun
    refine ⟨grown, fun vnode member => ?_, .inr ⟨n, ?_⟩⟩
    · rcases List.mem_append.mp member with old | new
      · exact .inl old
      · rw [List.mem_singleton.mp new]
        exact .inr ⟨named, dir, List.mem_append_left _ inside, rfl, isDir⟩
    · rcases grown.lookup (before ++ slash :: name) with ⟨vnode, -, hit, -⟩ | ⟨-, none⟩
      · refine ⟨vnode, rfl, fsLookupVnode_relative ?_ hit⟩
        exact below
      · exact absurd atPath (none _ (List.mem_append_right _ List.mem_cons_self))

/-- `vfs_open` comes back from making a file that has a directory. -/
theorem Mounts.Sound.create {answers : FileAnswers} {mem : OpenMem} {flags mode : BitVec 32}
    {proc : Process} {vfs : Vfs Mounts} (sound : vfs.world.Sound) (copied : answers.path = .ok path)
    (absolute : Absolute path) (short : path.length < pathMax)
    (member : fs ∈ vfs.world.filesystems) (mounted : fs.mntpoint ≠ [])
    (owner : vfsTopmostFsForPath path vfs.world.filesystems = .ok fs) {relative : List Byte}
    (below : pathMakeRelative (pathMakeCanonical path) fs.mntpoint = .ok relative)
    (missing : fsLookupVnodeCachedRelative relative fs = .ok none) (creat : flags &&& 0x8 ≠ 0)
    (creatable : Creatable path flags vfs.world) :
    ∃ st proc' vfs', mountedOpen answers mem flags mode proc vfs = .ok (st, proc', vfs') ∧
      vfs'.world.Sound ∧ NewPlaced vfs.world vfs'.world := by
  obtain ⟨before, name, dir, rfl, last, found, isDir⟩ :=
    creatable absolute creat fs relative owner below missing
  have here := sound.each fs member
  have unused (vnode : VirtualNode) (inside : vnode ∈ fs.vnodeLl) : vnode.addr ≠ vfs.world.fresh :=
    Nat.ne_of_lt (sound.apart.allocated vnode (mem_vnodes.mpr ⟨fs, member, inside⟩))
  obtain ⟨res, fs', made, after, placed, found⟩ := here.fsMkfile mounted short unused below missing
    last found isDir answers.mkfile mode 0 0
  obtain ⟨same, added, grown, shape⟩ := fsMkfile_ok unused made
  have fresh : added = [] ∨ ∃ vnode, added = [vnode] ∧ vnode.addr = vfs.world.fresh := by
    rcases shape with none | ⟨name, n, dir, one⟩
    · exact .inl none
    · exact .inr ⟨_, one, rfl⟩
  have apart := (sound.apart.mkfile member same grown fresh).1
  have opens (st : Int) := @mountedOpen_create fs path answers mem flags mode proc proc vfs
    { vfs with world := { vfs.world.setFs fs' with fresh := vfs.world.fresh + 1 } } st copied
    absolute owner (fsLookupVnode_missing below missing) creat
  have new : NewPlaced vfs.world { vfs.world.setFs fs' with fresh := vfs.world.fresh + 1 } := by
    intro other inside vnode held
    rcases mem_setFs inside with rfl | old
    · rcases placed vnode held with before | placed
      · exact .inl ⟨vnode, mem_vnodes.mpr ⟨fs, member, before⟩, rfl⟩
      · exact .inr placed
    · exact .inl ⟨vnode, mem_vnodes.mpr ⟨other, old, held⟩, rfl⟩
  have kept := sound.setFs member after same apart rfl
  rcases found with failed | ⟨n, vnode, done, again⟩
  · exact ⟨-12, proc, _, (opens (-12)).mpr ⟨res, fs', made, rfl, rfl, .inl failed⟩, kept, new⟩
  · exact ⟨-2, proc, _, (opens (-2)).mpr ⟨res, fs', made, rfl, rfl, .inr ⟨rfl, n, vnode, done, again⟩⟩,
      kept, new⟩

theorem vfsOpenVnode_world {answers : FileAnswers} {mem : OpenMem} {addr : VirtualNodeRef}
    {flags : BitVec 32} {proc proc' : Process} {vfs vfs' : Vfs Mounts} {st : Int}
    (h : vfsOpenVnode (mountedFileSystems answers) mem addr flags proc vfs = (st, proc', vfs')) :
    vfs'.world = vfs.world ∨ vfs'.world = vnodeIncreaseRefcount addr vfs.world := by
  unfold vfsOpenVnode at h
  dsimp only at h
  split at h
  · cases h
    exact .inl rfl
  · split at h
    · cases h
      exact .inl rfl
    · split at h
      · cases h
        exact .inl rfl
      · cases h
        exact .inr rfl

section Open

variable {answers : FileAnswers} {mem : OpenMem} {flags mode : BitVec 32} {proc : Process}
  {vfs : Vfs Mounts}

theorem mountedOpen_found (copied : answers.path = .ok path) (absolute : Absolute path)
    (owner : vfsTopmostFsForPath path vfs.world.filesystems = .ok fs) {vnode : VirtualNode}
    (found : fsLookupVnode path fs = .ok (.ok vnode)) :
    mountedOpen answers mem flags mode proc vfs =
      .ok (vfsOpenVnode (mountedFileSystems answers) mem vnode.addr flags proc vfs) := by
  have lead : ¬ path.head? ≠ some slash := not_not.mpr absolute
  unfold mountedOpen
  rw [copied]
  dsimp only
  rw [if_neg lead, owner]
  show (fsLookupVnode path fs >>= _) = _
  rw [found]
  rfl

theorem mountedOpen_failed (copied : answers.path = .ok path) (absolute : Absolute path)
    (owner : vfsTopmostFsForPath path vfs.world.filesystems = .ok fs) {st : Int}
    (failed : fsLookupVnode path fs = .ok (.error st)) (given : st = -2 → flags &&& 0x8 = 0) :
    mountedOpen answers mem flags mode proc vfs = .ok (st, proc, vfs) := by
  have lead : ¬ path.head? ≠ some slash := not_not.mpr absolute
  unfold mountedOpen
  rw [copied]
  dsimp only
  rw [if_neg lead, owner]
  show (fsLookupVnode path fs >>= _) = _
  rw [failed]
  show (if st ≠ -2 then pure (st, proc, vfs) else if flags &&& 0x8 = 0 then pure (-2, proc, vfs)
    else _) = _
  by_cases other : st = -2
  · rw [if_neg (not_not.mpr other), if_pos (given other), other]
    rfl
  · rw [if_pos other]
    rfl

/-- What `vfs_open` comes to: no absolute path, a vnode that is opened, a path that is not found, or
    a file that is to be made. -/
theorem mountedOpen_cases {proc' : Process} {vfs' : Vfs Mounts} {st : Int}
    (h : mountedOpen answers mem flags mode proc vfs = .ok (st, proc', vfs')) :
    ((∀ path, answers.path = .ok path → ¬ Absolute path) ∧ proc' = proc ∧ vfs' = vfs) ∨
      ∃ path fs, answers.path = .ok path ∧ Absolute path ∧
        vfsTopmostFsForPath path vfs.world.filesystems = .ok fs ∧
        ((∃ vnode, fsLookupVnode path fs = .ok (.ok vnode) ∧
            vfsOpenVnode (mountedFileSystems answers) mem vnode.addr flags proc vfs =
              (st, proc', vfs')) ∨
          (fsLookupVnode path fs = .ok (.error st) ∧ (st = -2 → flags &&& 0x8 = 0) ∧ proc' = proc ∧
            vfs' = vfs) ∨
          (fsLookupVnode path fs = .ok (.error (-2)) ∧ flags &&& 0x8 ≠ 0)) := by
  have called := h
  unfold mountedOpen at h
  cases copied : answers.path with
  | error refused =>
    rw [copied] at h
    cases h
    exact .inl ⟨nofun, rfl, rfl⟩
  | ok path =>
    rw [copied] at h
    dsimp only at h
    by_cases absolute : Absolute path
    · have lead : ¬ path.head? ≠ some slash := not_not.mpr absolute
      rw [if_neg lead] at h
      obtain ⟨fs, owner, h⟩ := Exec.bind_ok.mp h
      obtain ⟨looked, result, -⟩ := Exec.bind_ok.mp h
      refine .inr ⟨path, fs, rfl, absolute, owner, ?_⟩
      cases looked with
      | ok vnode =>
        have opened := (mountedOpen_found copied absolute owner result).symm.trans called
        exact .inl ⟨vnode, result, Except.ok.inj opened⟩
      | error failed =>
        by_cases given : failed = -2 → flags &&& 0x8 = 0
        · cases (mountedOpen_failed copied absolute owner result given).symm.trans called
          exact .inr (.inl ⟨result, given, rfl, rfl⟩)
        · rw [Classical.not_imp] at given
          obtain ⟨rfl, creat⟩ := given
          exact .inr (.inr ⟨result, creat⟩)
    · have lead : path.head? ≠ some slash := absolute
      rw [if_pos lead] at h
      cases h
      refine .inl ⟨fun other same => ?_, rfl, rfl⟩
      cases same
      exact absolute

/-- `vfs_open` comes back to a sound table, and what it makes has a name and a directory. -/
theorem Mounts.Sound.open_returns (sound : vfs.world.Sound)
    (short : ∀ path, answers.path = .ok path → path.length < pathMax)
    (creatable : ∀ path, answers.path = .ok path → Creatable path flags vfs.world) :
    ∃ st proc' vfs', mountedOpen answers mem flags mode proc vfs = .ok (st, proc', vfs') ∧
      vfs'.world.Sound ∧ NewPlaced vfs.world vfs'.world := by
  have same := (noneNew_refl vfs.world).newPlaced
  cases copied : answers.path with
  | error st =>
    unfold mountedOpen
    rw [copied]
    exact ⟨st, proc, vfs, rfl, sound, same⟩
  | ok path =>
    by_cases absolute : Absolute path
    · obtain ⟨fs, member, owner, mounted⟩ := sound.owner absolute
      rcases (sound.each fs member).lookup_cases path with
        ⟨vnode, inside, found⟩ | ⟨st, failed, other⟩ | ⟨relative, below, missing⟩
      · have opens := @mountedOpen_found fs path answers mem flags mode proc vfs copied absolute
          owner vnode found
        generalize opened : vfsOpenVnode (mountedFileSystems answers) mem vnode.addr flags proc vfs =
          result at opens
        obtain ⟨st, proc', vfs'⟩ := result
        refine ⟨st, proc', vfs', opens, ?_⟩
        rcases vfsOpenVnode_world opened with kept | increased
        · rw [kept]
          exact ⟨sound, same⟩
        · rw [increased]
          exact ⟨sound.increase _, (noneNew_increase _ _).newPlaced⟩
      · exact ⟨st, proc, vfs, mountedOpen_failed copied absolute owner failed (absurd · other),
          sound, same⟩
      · by_cases creat : flags &&& 0x8 = 0
        · exact ⟨-2, proc, vfs, mountedOpen_failed copied absolute owner
            (fsLookupVnode_missing below missing) fun _ => creat, sound, same⟩
        · exact sound.create copied absolute (short path copied) member mounted owner below missing
            creat (creatable path copied)
    · unfold mountedOpen
      rw [copied]
      exact ⟨-22, proc, vfs, if_pos absolute, sound, same⟩

end Open

section Rmfile

variable {vnode : VirtualNode}

theorem mountedRmfile_failed (absolute : Absolute path)
    (owner : vfsTopmostFsForPath path mounts.filesystems = .ok fs) {st : Int}
    (failed : fsLookupVnode path fs = .ok (.error st)) :
    mountedRmfile (.ok path) mounts = .ok (st, mounts) := by
  have lead : ¬ path.head? ≠ some slash := not_not.mpr absolute
  unfold mountedRmfile
  dsimp only
  rw [if_neg lead, owner]
  show (fsLookupVnode path fs >>= _) = _
  rw [failed]
  rfl

theorem mountedRmfile_found (absolute : Absolute path)
    (owner : vfsTopmostFsForPath path mounts.filesystems = .ok fs)
    (found : fsLookupVnode path fs = .ok (.ok vnode)) :
    mountedRmfile (.ok path) mounts =
      if vnode.IsDir then .ok (-21, mounts)
      else if vnode.refCount = 0 then
        (mounts.setVnode { vnode with pendingRm := true }).rmnode { vnode with pendingRm := true }
          >>= fun mounts => pure (0, mounts)
      else .ok (0, mounts.setVnode { vnode with pendingRm := true }) := by
  have lead : ¬ path.head? ≠ some slash := not_not.mpr absolute
  unfold mountedRmfile
  dsimp only
  rw [if_neg lead, owner]
  show (fsLookupVnode path fs >>= _) = _
  rw [found]
  rfl

theorem Mounts.Sound.rmfile_returns (sound : mounts.Sound) (safePath : Except Errno (List Byte)) :
    ∃ st mounts', mountedRmfile safePath mounts = .ok (st, mounts') ∧ mounts'.Sound ∧
      NoneNew mounts mounts' := by
  have same := noneNew_refl mounts
  cases safePath with
  | error st => exact ⟨st, mounts, rfl, sound, same⟩
  | ok path =>
    by_cases absolute : Absolute path
    · obtain ⟨fs, member, owner, mounted⟩ := sound.owner absolute
      rcases (sound.each fs member).lookup_cases path with
        ⟨vnode, own, found⟩ | ⟨st, failed, -⟩ | ⟨relative, below, missing⟩
      · rw [mountedRmfile_found absolute owner found]
        by_cases isDir : vnode.IsDir
        · exact ⟨-21, mounts, if_pos isDir, sound, same⟩
        · have inside := mem_vnodes.mpr ⟨fs, member, own⟩
          have marked : (mounts.setVnode { vnode with pendingRm := true }).Sound :=
            sound.setVnode inside ⟨rfl, rfl, rfl, rfl⟩ fun _ => isDir
          rw [if_neg isDir]
          by_cases unused : vnode.refCount = 0
          · obtain ⟨mounts', removed, left⟩ := @Mounts.Sound.rmnode _ marked
              { vnode with pendingRm := true } (mem_setVnode_self inside rfl) isDir
            rw [if_pos unused, removed]
            have none := (noneNew_setVnode _).trans (noneNew_rmnode marked.apart removed)
            exact ⟨0, mounts', rfl, left, none⟩
          · rw [if_neg unused]
            exact ⟨0, _, rfl, marked, noneNew_setVnode _⟩
      · exact ⟨st, mounts, mountedRmfile_failed absolute owner failed, sound, same⟩
      · exact ⟨-2, mounts, mountedRmfile_failed absolute owner
          (fsLookupVnode_missing below missing), sound, same⟩
    · exact ⟨-22, mounts, if_pos absolute, sound, same⟩

end Rmfile

theorem Mounts.Sound.not_newPlaced {answers : FileAnswers} {mem : OpenMem} {flags mode : BitVec 32}
    {proc proc' : Process} {vfs vfs' : Vfs Mounts} {st : Int} (sound : vfs.world.Sound)
    (copied : answers.path = .ok path) (plenty : answers.mkfile = ⟨true, true⟩)
    (absolute : Absolute path)
    (owner : vfsTopmostFsForPath path vfs.world.filesystems = .ok fs) {relative : List Byte}
    (below : pathMakeRelative (pathMakeCanonical path) fs.mntpoint = .ok relative)
    (missing : fsLookupVnodeCachedRelative relative fs = .ok none) (creat : flags &&& 0x8 ≠ 0)
    (nowhere : ∀ before name dir, relative = before ++ slash :: name → slash ∉ name →
      fsLookupVnodeCachedRelative (directoryPart before) fs = .ok (some dir) → ¬ dir.IsDir)
    (h : mountedOpen answers mem flags mode proc vfs = .ok (st, proc', vfs')) :
    ¬ NewPlaced vfs.world vfs'.world := by
  obtain ⟨res, fs', made, -, rfl, -⟩ := (mountedOpen_create copied absolute owner
    (fsLookupVnode_missing below missing) creat).mp h
  have member := (vfsTopmostFsForPath_ok.mp owner).mem
  have here := sound.each fs member
  have allocated (vnode : VirtualNode) (inside : vnode ∈ fs.vnodeLl) :
      vnode.addr < vfs.world.fresh :=
    sound.apart.allocated vnode (mem_vnodes.mpr ⟨fs, member, inside⟩)
  have unused (vnode : VirtualNode) (inside : vnode ∈ fs.vnodeLl) : vnode.addr ≠ vfs.world.fresh :=
    Nat.ne_of_lt (allocated vnode inside)
  by_cases slashed : slash ∈ relative
  · obtain ⟨before, name, rfl, last⟩ := exists_last_slash slashed
    obtain ⟨parent, found, noDirectory⟩ : ∃ parent,
        fsLookupVnodeCachedRelative (directoryPart before) fs = .ok parent ∧
          ∀ dir ∈ fs.vnodeLl, parent.map VirtualNode.addr = some dir.addr → ¬ dir.IsDir := by
      rcases here.lookup (directoryPart before) with ⟨dir, inside, found, -⟩ | ⟨none, -⟩
      · refine ⟨some dir, found, fun other there same => ?_⟩
        rw [List.inj_on_of_nodup_map here.nodup there inside (Option.some.inj same).symm]
        exact nowhere before name dir rfl last found
      · exact ⟨.none, none, fun dir _ same => nomatch same⟩
    rw [fsMkfile_append here.makesFiles below last found, plenty] at made
    obtain ⟨ctx, n, done⟩ := @ramfsMkfile_made fs vfs.world.fresh (parent.map VirtualNode.addr)
      name mode 0 0 here.initialized unused
    rw [done] at made
    cases made
    intro placed
    obtain ⟨earlier, later, -, set⟩ := @setFs_split vfs.world sound.apart.distinct fs
      { fs with
        driverCtx := some ctx
        vnodeLl := fs.vnodeLl ++ [⟨vfs.world.fresh, name, n, 0, mode, 0, false,
          parent.map VirtualNode.addr, 0, 0, .driver fs.driver, 0⟩] } member rfl
    have there := placed _ (by
      show _ ∈ (vfs.world.setFs _).filesystems
      rw [set]
      exact List.mem_append_right _ List.mem_cons_self) _
      (List.mem_append_right _ List.mem_cons_self)
    rcases there with ⟨old, inside, same⟩ | ⟨-, dir, inside, same, isDir⟩
    · exact Nat.ne_of_lt (sound.apart.allocated old inside) same
    · rcases List.mem_append.mp inside with old | new
      · exact noDirectory dir old same isDir
      · -- the new vnode is not its own directory
        rw [List.mem_singleton.mp new] at same
        obtain ⟨above, found', equal⟩ := Option.map_eq_some_iff.mp same
        rcases here.lookup (directoryPart before) with ⟨vnode, held, hit, -⟩ | ⟨none, -⟩
        · rw [found, found'] at hit
          cases hit
          exact unused above held equal
        · rw [found, found'] at none
          cases none
  · rw [fsMkfile_no_slash below slashed] at made
    cases made

/-- Whatever string a process passes, the two calls come back, and what they make has a name and a
    directory. -/
def Returns (str : List Byte) (flags : BitVec 32) (mounts : Mounts) : Prop :=
  ∀ answers : FileAnswers,
    (∀ path, answers.path = .ok path → path = userCopyStrFrom str pathMax) →
    (∀ mem mode proc vfs, vfs.world = mounts → ∃ st proc' vfs',
      mountedOpen answers mem flags mode proc vfs = .ok (st, proc', vfs') ∧
        NewPlaced mounts vfs'.world) ∧
    ∃ st mounts', mountedRmfile answers.path mounts = .ok (st, mounts') ∧ NewPlaced mounts mounts'

theorem userCopyStrFrom_length (str : List Byte) :
    (userCopyStrFrom str pathMax).length < pathMax := by
  unfold userCopyStrFrom
  rw [List.length_take]
  exact Nat.lt_of_le_of_lt (Nat.min_le_left _ _) (by decide)

/-- `vfs_open` and `vfs_rmfile` come back without a panic, and make no vnode without a name or a
    directory, exactly if a file that would be made has a directory to be made in. -/
theorem returns_iff_creatable (sound : mounts.Sound) (str : List Byte) (flags : BitVec 32) :
    Returns str flags mounts ↔ Creatable (userCopyStrFrom str pathMax) flags mounts := by
  constructor
  · intro returns absolute creat fs relative owner below missing
    by_contra nowhere
    push Not at nowhere
    obtain ⟨opens, -⟩ := returns ⟨.ok (userCopyStrFrom str pathMax), ⟨true, true⟩, 0, 0⟩
      fun path same => (Except.ok.inj same).symm
    obtain ⟨st, proc', vfs', done, placed⟩ := opens ⟨true, ⟨true, true, true⟩⟩ 0 ⟨0, [], 0, false, 0⟩
      ⟨HashTable.init fun _ => .error 0, mounts, []⟩ rfl
    exact Mounts.Sound.not_newPlaced sound rfl rfl absolute owner below missing creat nowhere done
      placed
  · intro creatable answers copied
    have cut (path : List Byte) (here : answers.path = .ok path) :
        path.length < pathMax ∧ Creatable path flags mounts := by
      rw [copied path here]
      exact ⟨userCopyStrFrom_length str, creatable⟩
    refine ⟨?_, ?_⟩
    · rintro mem mode proc vfs rfl
      obtain ⟨st, proc', vfs', done, -, placed⟩ := @Mounts.Sound.open_returns answers mem flags mode
        proc vfs sound (fun path here => (cut path here).1) fun path here => (cut path here).2
      exact ⟨st, proc', vfs', done, placed⟩
    · obtain ⟨st, mounts', done, -, none⟩ := sound.rmfile_returns answers.path
      exact ⟨st, mounts', done, none.newPlaced⟩

/-- A ramfs on `/` and the devfs on `/dev`. -/
def ramfsMounts : Mounts := (mountWith devArgs (mountWith (tmpArgs [slash]) ⟨[], 1, []⟩).2).2

theorem sound_root {root : VirtualNode} (makesFiles : fs.driver ≠ .fatfs)
    (initialized : fs.driverCtx ≠ none) (alone : fs.vnodeLl = [root]) (top : root.parent = none)
    (named : root.name = [slash]) (isDir : root.IsDir) (kept : root.pendingRm = false) :
    fs.Sound := by
  have only (vnode : VirtualNode) (inside : vnode ∈ fs.vnodeLl) : vnode = root := by
    rw [alone] at inside
    exact List.mem_singleton.mp inside
  constructor
  · exact makesFiles
  · exact initialized
  · rw [alone]
    exact List.nodup_singleton _
  · intro vnode inside
    rw [only vnode inside, named]
    exact List.cons_ne_nil _ _
  · exact ⟨root, by rw [alone]; exact List.mem_cons_self, top⟩
  · intro vnode inside _
    rw [only vnode inside]
    exact ⟨named, isDir⟩
  · intro vnode inside
    rw [only vnode inside]
    exact ⟨root.name, .root top, by rw [named]; decide⟩
  · intro vnode inside pending
    rw [only vnode inside, kept] at pending
    cases pending

theorem sound_ramfsMounts : ramfsMounts.Sound := by
  refine ⟨⟨⟨by decide, by decide⟩, by decide, by decide⟩, by decide, fun fs member => ?_⟩
  rcases List.mem_cons.mp member with rfl | member
  · exact @sound_root _ ⟨2, [slash], 1, 0, 0x4000, 0, false, none, 0, 0, .driver .ramfs, 0⟩ (by decide)
      (by decide) rfl rfl rfl (by decide) rfl
  · rw [List.mem_singleton.mp member]
    exact @sound_root _ ⟨4, [slash], 1, 0, 0x4000, 0, false, none, 0, 0, .driver .devfs, 0⟩
      (by decide) (by decide) rfl rfl rfl (by decide) rfl

/-- `/dev/a` can be made. -/
theorem returns_dev_a : Returns [slash, 0x64, 0x65, 0x76, slash, 0x61] 0x8 ramfsMounts := by
  refine (returns_iff_creatable sound_ramfsMounts _ _).mpr fun _ _ fs relative owner below _ => ?_
  have evaluated : (vfsTopmostFsForPath [slash, 0x64, 0x65, 0x76, slash, 0x61]
      ramfsMounts.filesystems).map (fun fs =>
        (pathMakeRelative (pathMakeCanonical [slash, 0x64, 0x65, 0x76, slash, 0x61]) fs.mntpoint,
          fsLookupVnodeCachedRelative [slash] fs)) =
      .ok (.ok [slash, 0x61],
        .ok (some ⟨4, [slash], 1, 0, 0x4000, 0, false, none, 0, 0, .driver .devfs, 0⟩)) := by
    decide
  change vfsTopmostFsForPath [slash, 0x64, 0x65, 0x76, slash, 0x61] _ = _ at owner
  rw [owner] at evaluated
  have both := Prod.mk.inj (Except.ok.inj evaluated)
  have same : relative = [] ++ slash :: [0x61] := Except.ok.inj (below.symm.trans both.1)
  exact ⟨[], [0x61], _, same, by decide, both.2, by decide⟩

/-- The mountpoint itself, a name that starts with it and a path without the directory above it. -/
theorem not_returns_dev :
    ramfsMounts.Sound ∧ ∀ str ∈ [[slash, 0x64, 0x65, 0x76], [slash, 0x64, 0x65, 0x76, 0x78],
      [slash, 0x61, slash, 0x62]], ¬ Returns str 0x8 ramfsMounts := by
  refine ⟨sound_ramfsMounts, fun str member returns => ?_⟩
  have stopped : ∀ str ∈ [[slash, 0x64, 0x65, 0x76], [slash, 0x64, 0x65, 0x76, 0x78],
      [slash, 0x61, slash, 0x62]], (mountedOpen ⟨.ok (userCopyStrFrom str pathMax), ⟨true, true⟩, 0, 0⟩
        ⟨true, ⟨true, true, true⟩⟩ 0x8 0 ⟨0, [], 0, false, 0⟩
        ⟨HashTable.init fun _ => .error 0, ramfsMounts, []⟩).toOption.isSome = false := by
    decide
  obtain ⟨opens, -⟩ := returns ⟨.ok (userCopyStrFrom str pathMax), ⟨true, true⟩, 0, 0⟩
    fun path same => (Except.ok.inj same).symm
  obtain ⟨st, proc', vfs', done, -⟩ := opens ⟨true, ⟨true, true, true⟩⟩ 0 ⟨0, [], 0, false, 0⟩
    ⟨HashTable.init fun _ => .error 0, ramfsMounts, []⟩ rfl
  have none := stopped str member
  rw [done] at none
  cases none

end Dxgmx
