import Dxgmx.Fs.Mount
import Dxgmx.Fs.Vfs

open Library

namespace Dxgmx

/-- The cached vnodes of all file systems. -/
def Mounts.vnodes (mounts : Mounts) : List VirtualNode :=
  mounts.filesystems.flatMap FileSystem.vnodeLl

/-- What a pointer to a vnode points to; `none` where the vnode was freed. -/
def Mounts.vnode (mounts : Mounts) (addr : VirtualNodeRef) : Option VirtualNode :=
  mounts.vnodes.find? fun vnode => vnode.addr = addr

def Mounts.owner (mounts : Mounts) (addr : VirtualNodeRef) : Option FileSystem :=
  mounts.filesystems.find? fun fs => (fs.vnodeAt addr).isSome

/-- A store to the fields of a vnode. -/
def Mounts.setVnode (vnode : VirtualNode) (mounts : Mounts) : Mounts :=
  { mounts with filesystems := mounts.filesystems.map fun fs => fs.setVnode vnode }

/-- A store to the fields of a file system. -/
def Mounts.setFs (fs : FileSystem) (mounts : Mounts) : Mounts :=
  { mounts with
    filesystems := mounts.filesystems.map fun old => if old.addr = fs.addr then fs else old }

/-- `vnode->owner->driver->rmnode(vnode)`. -/
def Mounts.rmnode (vnode : VirtualNode) (mounts : Mounts) : Exec Mounts :=
  match mounts.owner vnode.addr with
  | none => .error .fault
  | some fs => do
    let fs ← fs.rmnode vnode
    pure { mounts.setFs fs with removed := mounts.removed ++ [vnode] }

def vnodeIncreaseRefcount (addr : VirtualNodeRef) (mounts : Mounts) : Mounts :=
  match mounts.vnode addr with
  | none => mounts
  | some vnode => mounts.setVnode { vnode with refCount := vnode.refCount + 1 }

def vnodeDecreaseRefcount (addr : VirtualNodeRef) (mounts : Mounts) : Exec Mounts :=
  match mounts.vnode addr with
  | none => .error .fault
  | some vnode =>
    if vnode.refCount = 0 then .error .panic
    else
      let vnode := { vnode with refCount := vnode.refCount - 1 }
      let mounts := mounts.setVnode vnode
      if vnode.refCount = 0 ∧ vnode.pendingRm then mounts.rmnode vnode else .ok mounts

/-- What the rest of the kernel answers to a call: `user_copy_str_from` to the path, the allocator
    to the making of a file, and the operations of the vnode. -/
structure FileAnswers where
  path : Except Errno (List Byte)
  mkfile : MkfileMem
  opsOpen : Int
  opsRead : Int

def mountedLookup (path : List Byte) (mounts : Mounts) : Exec (Except Int VirtualNode) := do
  let fs ← vfsTopmostFsForPath path mounts.filesystems
  fsLookupVnode path fs

/-- `fs_mkfile` on the file system that owns the path. -/
def mountedMkfile (mem : MkfileMem) (path : List Byte) (mode : BitVec 32) (mounts : Mounts) :
    Exec (Except Int Nat × Mounts) := do
  let fs ← vfsTopmostFsForPath path mounts.filesystems
  let (res, fs) ← fsMkfile mem mounts.fresh path mode 0 0 fs
  pure (res, { mounts.setFs fs with fresh := mounts.fresh + 1 })

/-- The mounted file systems as the virtual file system calls them. A lookup or a `mkfile` that does
    not come back has no answer, so it is given one that is not used. -/
def mountedFileSystems (answers : FileAnswers) : FileSystems Mounts where
  userCopyStrFrom _ _ := match answers.path with
    | .error st => .error st
    | .ok path => .ok path
  lookupVnode path mounts := match mountedLookup path mounts with
    | .ok (.ok vnode) => (.ok vnode.addr, mounts)
    | .ok (.error st) => (.error st, mounts)
    | .error _ => (.error 0, mounts)
  mkfile path mode mounts := match mountedMkfile answers.mkfile path mode mounts with
    | .ok result => result
    | .error _ => (.error 0, mounts)
  mode addr mounts := ((mounts.vnode addr).map VirtualNode.mode).getD 0
  size addr mounts := ((mounts.vnode addr).map VirtualNode.size).getD 0
  opsOpen _ _ mounts := (answers.opsOpen, mounts)
  opsRead _ _ _ _ mounts := (answers.opsRead, mounts)
  vnodeIncreaseRefcount := vnodeIncreaseRefcount
  vnodeDecreaseRefcount := vnodeDecreaseRefcount

/-- `vfs_open` on the mounted file systems. -/
def mountedOpen (answers : FileAnswers) (mem : OpenMem) (flags mode : BitVec 32) (proc : Process)
    (vfs : Vfs Mounts) : Exec (Int × Process × Vfs Mounts) :=
  match answers.path with
  | .error st => .ok (st, proc, vfs)
  | .ok safePath =>
    if safePath.head? ≠ some slash then .ok (-22, proc, vfs)
    else do
      let fs ← vfsTopmostFsForPath safePath vfs.world.filesystems
      match ← fsLookupVnode safePath fs with
      | .ok vnode =>
        pure (vfsOpenVnode (mountedFileSystems answers) mem vnode.addr flags proc vfs)
      | .error st =>
        if st ≠ -2 then pure (st, proc, vfs)
        else if flags &&& 0x8 = 0 then pure (-2, proc, vfs)
        else do
          let (res, fs) ← fsMkfile answers.mkfile vfs.world.fresh safePath mode 0 0 fs
          let vfs := { vfs with
            world := { vfs.world.setFs fs with fresh := vfs.world.fresh + 1 } }
          match res with
          | .error st => pure (st, proc, vfs)
          | .ok _ =>
            match ← fsLookupVnode safePath fs with
            | .error _ => .error .panic
            | .ok _ => pure (-2, proc, vfs)

/-- `vfs_rmfile` on the mounted file systems. Freeing a vnode returns 0. -/
def mountedRmfile (path : Except Errno (List Byte)) (mounts : Mounts) : Exec (Int × Mounts) :=
  match path with
  | .error st => .ok (st, mounts)
  | .ok safePath =>
    if safePath.head? ≠ some slash then .ok (-22, mounts)
    else do
      let fs ← vfsTopmostFsForPath safePath mounts.filesystems
      match ← fsLookupVnode safePath fs with
      | .error st => pure (st, mounts)
      | .ok vnode =>
        if vnode.IsDir then pure (-21, mounts)
        else
          let vnode := { vnode with pendingRm := true }
          let mounts := mounts.setVnode vnode
          if vnode.refCount = 0 then do
            let mounts ← mounts.rmnode vnode
            pure (0, mounts)
          else pure (0, mounts)

/-- `vfs_close` on the mounted file systems. -/
def mountedClose (answers : FileAnswers) (fd : Fd) (proc : Process) (vfs : Vfs Mounts) :
    Exec (Int × Process × Vfs Mounts) :=
  vfsClose (mountedFileSystems answers) fd proc vfs

end Dxgmx
