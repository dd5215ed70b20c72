import Dxgmx.Fs.Fs
import Dxgmx.Library.LastMax

open Library

namespace Dxgmx

def topmostStep (path : List Byte) (hit : Option FileSystem) (fs : FileSystem) :
    Option FileSystem :=
  if strstr path fs.mntpoint = some 0 then
    match hit with
    | none => some fs
    | some cur => if cur.mntpoint.length ≤ fs.mntpoint.length then some fs else some cur
  else hit

/-- `filesystems` is `g_filesystems_ll`: the mounted file systems in the order of their mounts. -/
def vfsTopmostFsForPath (path : List Byte) (filesystems : List FileSystem) : Exec FileSystem :=
  match filesystems.foldl (topmostStep path) none with
  | none => .error .panic
  | some fs => .ok fs

def vfsFindFsBySrcOrDest (srcOrDest : List Byte) (filesystems : List FileSystem) :
    Option FileSystem :=
  filesystems.find? fun fs => fs.mntsrc = srcOrDest ∨ fs.mntpoint = srcOrDest

/-- What the calls on mounted file systems share. Blocks are known by the order they are allocated
    in: `fresh` is the next one. `removed` is a ghost: the vnodes that `rmnode` was called with. -/
structure Mounts where
  filesystems : List FileSystem
  fresh : Nat
  removed : List VirtualNode
  deriving DecidableEq

/-- A vnode that a driver caches while it initializes a file system. The parent is the place of an
    earlier one. -/
structure NewVnode where
  name : List Byte
  n : Nat
  size : BitVec 32
  mode : BitVec 32
  parent : Option Nat
  uid : BitVec 32
  gid : BitVec 32
  ops : VirtualNodeOperations
  data : Nat

/-- What a driver's `init` does to a file system. -/
structure InitAnswer where
  st : Int
  driverCtx : Option RamFsMetadata
  vnodes : List NewVnode

def cacheVnodes (fresh : Nat) (vnodes : List NewVnode) : List VirtualNode :=
  vnodes.zipIdx.map fun (vnode, i) =>
    ⟨fresh + i, vnode.name, vnode.n, vnode.size, vnode.mode, 0, false, vnode.parent.map (fresh + ·),
      vnode.uid, vnode.gid, vnode.ops, vnode.data⟩

/-- A call of `driver->init`, with the status, the file system and the next block after it. -/
def initFs (init : FileSystem → InitAnswer) (fresh : Nat) (fs : FileSystem) :
    Int × FileSystem × Nat :=
  let answer := init fs
  (answer.st,
    { fs with
      driverCtx := answer.driverCtx
      vnodeLl := fs.vnodeLl ++ cacheVnodes fresh answer.vnodes },
    fresh + answer.vnodes.length)

def FileSystemDriver.name : FileSystemDriver → List Byte
  | .ramfs => [0x72, 0x61, 0x6d, 0x66, 0x73]
  | .devfs => [0x64, 0x65, 0x76, 0x66, 0x73]
  | .fatfs => [0x66, 0x61, 0x74, 0x66, 0x73]

def FileSystemDriver.genericProbe : FileSystemDriver → Bool
  | .ramfs | .devfs => false
  | .fatfs => true

/-- The loop of `vfs_mount` over the registered drivers. -/
def vfsMountLoop (init : FileSystem → InitAnswer) (type : Option (List Byte)) :
    List FileSystemDriver → FileSystem → (fresh : Nat) → Int × FileSystem × Nat
  | [], fs, fresh => (-2, fs, fresh)
  | driver :: rest, fs, fresh =>
    let fs := { fs with driver := driver }
    match type with
    | some safeType =>
      if driver.name = safeType then initFs init fresh fs
      else vfsMountLoop init type rest fs fresh
    | none =>
      if driver.genericProbe then
        let (st, fs, fresh) := initFs init fresh fs
        if st ≠ -2 then (st, fs, fresh) else vfsMountLoop init type rest fs fresh
      else vfsMountLoop init type rest fs fresh

/-- A negative errno. -/
abbrev Errno := { st : Int // st < 0 }

/-- What a caller of `vfs_mount` gives it, as `user_strndup` copies it. -/
structure MountArgs where
  src : Except Errno (List Byte)
  dest : Except Errno (List Byte)
  type : Option (Except Errno (List Byte))
  args : Option (Except Errno (List Byte))

/-- The strings of `vfs_new_fs`; `mem` says whether the file system and its list node are found
    memory. -/
def vfsNewFs (mem : Bool) (mount : MountArgs) (addr : Nat) : Except Errno FileSystem :=
  if mem = false then .error ⟨-12, by decide⟩
  else
    match mount.src, mount.dest, mount.args with
    | .error st, _, _ => .error st
    | .ok _, .error st, _ => .error st
    | .ok _, .ok _, some (.error st) => .error st
    | .ok src, .ok dest, _ => .ok ⟨addr, src, dest, .ramfs, none, []⟩

def vfsMount (mem : Bool) (drivers : List FileSystemDriver) (init : FileSystem → InitAnswer)
    (mount : MountArgs) (mounts : Mounts) : Int × Mounts :=
  match vfsNewFs mem mount mounts.fresh with
  | .error st => (st, mounts)
  | .ok fs =>
    match mount.type with
    | some (.error st) => (st, { mounts with fresh := mounts.fresh + 1 })
    | type =>
      let safeType := type.bind Except.toOption
      let (st, fs, fresh) := vfsMountLoop init safeType drivers fs (mounts.fresh + 1)
      if st < 0 then (st, { mounts with fresh := fresh })
      else (st, { mounts with filesystems := mounts.filesystems ++ [fs], fresh := fresh })

/-- `destroy` is the driver's: whether it comes back. -/
def vfsUnmount (destroy : FileSystem → Exec Unit) (srcOrDest : Option (List Byte))
    (mounts : Mounts) : Exec (Int × Mounts) :=
  match srcOrDest with
  | none => .ok (-22, mounts)
  | some srcOrDest =>
    match vfsFindFsBySrcOrDest srcOrDest mounts.filesystems with
    | none => .ok (-2, mounts)
    | some fs => do
      destroy fs
      pure (0,
        { mounts with filesystems := mounts.filesystems.eraseP fun other => other.addr = fs.addr })

/-- Each file system has a block of its own. -/
structure Mounts.Distinct (mounts : Mounts) : Prop where
  nodup : (mounts.filesystems.map FileSystem.addr).Nodup
  allocated : ∀ fs ∈ mounts.filesystems, fs.addr < mounts.fresh

/-- The file system that owns a path is the one with the longest mountpoint the path starts with,
    and the latest of these. -/
theorem foldl_topmostStep (path : List Byte) (filesystems : List FileSystem) :
    filesystems.foldl (topmostStep path) none =
      lastMax (fun fs => fs.mntpoint.length) (fun fs => fs.mntpoint <+: path) filesystems := by
  unfold lastMax
  congr 1
  funext hit fs
  unfold topmostStep lastMaxStep
  by_cases here : fs.mntpoint <+: path
  · rw [if_pos ((strstr_start _ _).mpr here), if_pos here]
    cases hit <;> rfl
  · rw [if_neg (fun found => here ((strstr_start _ _).mp found)), if_neg here]

theorem vfsTopmostFsForPath_ok {path : List Byte} {filesystems : List FileSystem}
    {fs : FileSystem} :
    vfsTopmostFsForPath path filesystems = .ok fs ↔
      IsLastMax (fun fs => fs.mntpoint.length) (fun fs => fs.mntpoint <+: path) filesystems fs := by
  rw [← lastMax_some, ← foldl_topmostStep]
  unfold vfsTopmostFsForPath
  cases filesystems.foldl (topmostStep path) none with
  | none => simp
  | some hit => simp

/-- One mountpoint that the path starts with is enough. -/
theorem vfsTopmostFsForPath_finds {path : List Byte} {filesystems : List FileSystem}
    {fs : FileSystem} (member : fs ∈ filesystems) (starts : fs.mntpoint <+: path) :
    ∃ top, vfsTopmostFsForPath path filesystems = .ok top := by
  cases found : vfsTopmostFsForPath path filesystems with
  | ok top => exact ⟨top, rfl⟩
  | error stop =>
    unfold vfsTopmostFsForPath at found
    rw [foldl_topmostStep] at found
    split at found
    · rename_i none
      exact absurd starts (lastMax_none.mp none fs member)
    · cases found

end Dxgmx
