import Dxgmx.Kstdlib.String
import Dxgmx.Library.Runs
import Dxgmx.Mem.Region
import Dxgmx.Proc.Proc

open Library

namespace Dxgmx

/-- What the virtual file system calls: the mounted file systems with their drivers and the memory
    of the caller, over a state `μ` of their own. `lookupVnode` is `fs_lookup_vnode` on the file
    system that `vfs_topmost_fs_for_path` selects. -/
structure FileSystems (μ : Type) where
  userCopyStrFrom : Ptr → μ → Except Int (List Byte)
  lookupVnode : List Byte → μ → Except Int VirtualNodeRef × μ
  mkfile : List Byte → BitVec 32 → μ → Except Int Nat × μ
  mode : VirtualNodeRef → μ → BitVec 32
  size : VirtualNodeRef → μ → BitVec 32
  opsOpen : VirtualNodeRef → BitVec 32 → μ → Int × μ
  opsRead : VirtualNodeRef → Ptr → BitVec 32 → BitVec 32 → μ → Int × μ
  vnodeIncreaseRefcount : VirtualNodeRef → μ → μ
  vnodeDecreaseRefcount : VirtualNodeRef → μ → Exec μ

/-- What the processes did to their descriptors. A read or a seek says whether a descriptor was
    found and what the call returned. -/
inductive FdEvent
  | opened (pid : Pid) (fd : Fd)
  | closed (pid : Pid) (fd : Fd)
  | accessed (pid : Pid) (fd : Fd) (found : Bool) (st : Int)
  | spawned (pid : Pid)
  deriving DecidableEq

/-- The state that the calls share. `log` is a ghost: no call reads it. -/
structure Vfs (μ : Type) where
  fdt : SysFdHashtable
  world : μ
  log : List FdEvent

def Vfs.record {μ : Type} (vfs : Vfs μ) (event : FdEvent) : Vfs μ :=
  { vfs with log := vfs.log ++ [event] }

structure OpenMem where
  fds : Bool
  sysfd : SysfdMem

variable {μ : Type}

/-- The part of `vfs_open` after the vnode is found. -/
def vfsOpenVnode (fs : FileSystems μ) (mem : OpenMem) (vnode : VirtualNodeRef) (flags : BitVec 32)
    (proc : Process) (vfs : Vfs μ) : Int × Process × Vfs μ :=
  let (procfd, proc) := procNewFd mem.fds proc
  if procfd < 0 then (procfd, proc, vfs)
  else
    let fd := BitVec.ofInt 32 procfd
    match vfsFdtNewSysfd mem.sysfd fd proc.pid vfs.fdt with
    | (none, fdt) => (-12, procFreeFd fd proc, { vfs with fdt := fdt })
    | (some sysfd, fdt) =>
      let (st, world) := fs.opsOpen vnode flags vfs.world
      if st < 0 then
        (st, procFreeFd fd proc, { vfs with fdt := vfsFdtFreeSysfd sysfd fdt, world := world })
      else
        let fdt := vfsFdtStore { sysfd with flags := flags, vnode := vnode } fdt
        let world := fs.vnodeIncreaseRefcount vnode world
        (procfd, proc, { vfs with fdt := fdt, world := world }.record (.opened proc.pid fd))

def vfsOpen (fs : FileSystems μ) (mem : OpenMem) (path : Ptr) (flags mode : BitVec 32)
    (proc : Process) (vfs : Vfs μ) : Exec (Int × Process × Vfs μ) :=
  match fs.userCopyStrFrom path vfs.world with
  | .error st => .ok (st, proc, vfs)
  | .ok safePath =>
    if safePath.head? ≠ some 0x2f then .ok (-22, proc, vfs)
    else
      match fs.lookupVnode safePath vfs.world with
      | (.ok vnode, world) => .ok (vfsOpenVnode fs mem vnode flags proc { vfs with world := world })
      | (.error st, world) =>
        if st ≠ -2 then .ok (st, proc, { vfs with world := world })
        else if flags &&& 0x8 = 0 then .ok (-2, proc, { vfs with world := world })
        else
          match fs.mkfile safePath mode world with
          | (.error st, world) => .ok (st, proc, { vfs with world := world })
          | (.ok _, world) =>
            match fs.lookupVnode safePath world with
            | (.error _, _) => .error .panic
            | (.ok _, world) => .ok (-2, proc, { vfs with world := world })

/-- `vfs_read` once the descriptor is found. -/
def vfsReadSysfd (fs : FileSystems μ) (sysfd : FileDescriptor) (buf : Ptr) (n : BitVec 32)
    (vfs : Vfs μ) : Int × Vfs μ :=
  if fs.mode sysfd.vnode vfs.world &&& 0x4000 ≠ 0 then (-21, vfs)
  else if sysfd.flags &&& 0x1 = 0 then (-9, vfs)
  else if n = 0 then (0, vfs)
  else
    let (rd, world) := fs.opsRead sysfd.vnode buf n sysfd.off vfs.world
    if rd < 0 then (rd, { vfs with world := world })
    else
      let sysfd := { sysfd with off := sysfd.off + BitVec.ofInt 32 rd }
      (rd, { vfs with fdt := vfsFdtStore sysfd vfs.fdt, world := world })

def vfsRead (fs : FileSystems μ) (fd : Fd) (buf : Ptr) (n : BitVec 32) (proc : Process)
    (vfs : Vfs μ) : Int × Vfs μ :=
  if fd.toInt < 0 then (-22, vfs)
  else
    match vfsFdtGetSysfd fd proc.pid vfs.fdt with
    | none => (-9, vfs.record (.accessed proc.pid fd false (-9)))
    | some sysfd =>
      let (st, vfs) := vfsReadSysfd fs sysfd buf n vfs
      (st, vfs.record (.accessed proc.pid fd true st))

/-- `vfs_lseek` once the descriptor is found. -/
def vfsLseekSysfd (fs : FileSystems μ) (sysfd : FileDescriptor) (off whence : BitVec 32)
    (vfs : Vfs μ) : Int × Vfs μ :=
  let store (res : BitVec 32) : Int × Vfs μ :=
    (res.toInt, { vfs with fdt := vfsFdtStore { sysfd with off := res } vfs.fdt })
  let negative : Int × Vfs μ := (if off.toInt < 0 then -22 else -39, vfs)
  if whence = 1 then if off.toInt < 0 then (-22, vfs) else store off
  else if whence = 2 then
    let res := sysfd.off + off
    if res.toInt < 0 then negative else store res
  else if whence = 3 then
    let res := fs.size sysfd.vnode vfs.world + off
    if res.toInt < 0 then negative else store res
  else (-22, vfs)

def vfsLseek (fs : FileSystems μ) (fd : Fd) (off whence : BitVec 32) (proc : Process)
    (vfs : Vfs μ) : Int × Vfs μ :=
  if fd.toInt < 0 then (-22, vfs)
  else
    match vfsFdtGetSysfd fd proc.pid vfs.fdt with
    | none => (-9, vfs.record (.accessed proc.pid fd false (-9)))
    | some sysfd =>
      let (st, vfs) := vfsLseekSysfd fs sysfd off whence vfs
      (st, vfs.record (.accessed proc.pid fd true st))

def vfsClose (fs : FileSystems μ) (fd : Fd) (proc : Process) (vfs : Vfs μ) :
    Exec (Int × Process × Vfs μ) :=
  if fd.toInt < 0 then .ok (-22, proc, vfs)
  else
    match vfsFdtGetSysfd fd proc.pid vfs.fdt with
    | none => .ok (-2, proc, vfs)
    | some sysfd =>
      match fs.vnodeDecreaseRefcount sysfd.vnode vfs.world with
      | .error stop => .error stop
      | .ok world =>
        let vfs := { vfs with fdt := vfsFdtFreeSysfd sysfd vfs.fdt, world := world }
        .ok (0, procFreeFd fd proc, vfs.record (.closed proc.pid fd))

end Dxgmx
