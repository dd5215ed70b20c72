import Dxgmx.Fs.VfsDrivers
import Dxgmx.Utils.LinkedList

open Library

namespace Dxgmx

/-- The strings of a file system are pointers; NULL is 0. -/
structure FsPointers where
  mntsrc : Nat
  mntpoint : Nat
  args : Nat
  flags : BitVec 32
  driver : Nat

/-- What `vfs_mount` allocates: the file systems, their strings, and the nodes of
    `g_filesystems_ll`. -/
structure MountMemory where
  filesystems : Blocks FsPointers
  strings : Blocks (List Byte)
  filesystemsLl : ListMemory

/-- What `user_strnlen`, `kmalloc` and `user_copy_from` answer to a `user_strndup`. -/
structure StrndupAnswers where
  len : Except Errno Nat
  dupstr : Nat
  copy : Except Errno (List Byte)

theorem enomem_negative : (-12 : Int) < 0 := by decide

theorem enametoolong_negative : (-36 : Int) < 0 := by decide

def enomem : Errno := ⟨-12, enomem_negative⟩

def enametoolong : Errno := ⟨-36, enametoolong_negative⟩

/-- The block is not given back where the copy fails. -/
def userStrndup (answers : StrndupAnswers) (maxn : Nat) (strings : Blocks (List Byte)) :
    Exec (Except Errno Nat × Blocks (List Byte)) :=
  match answers.len with
  | .error st => .ok (.error st, strings)
  | .ok len =>
    if len = maxn then .ok (.error enametoolong, strings)
    else if answers.dupstr = 0 then .ok (.error enomem, strings)
    else do
      let strings ← strings.alloc answers.dupstr []
      match answers.copy with
      | .error st => pure (.error st, strings)
      | .ok str => do
        let strings ← strings.store answers.dupstr str
        pure (.ok answers.dupstr, strings)

/-- The answers to a `vfs_mount`. `newfs` and `node` are those of the allocator. -/
structure MountAnswers where
  newfs : Nat
  src : StrndupAnswers
  dest : StrndupAnswers
  args : Option StrndupAnswers
  node : Nat
  type : Option StrndupAnswers
  init : Nat → Int

def vfsTypeMax : Nat := 32

namespace MountMemory

def strndup (answers : StrndupAnswers) (maxn : Nat) (mem : MountMemory) :
    Exec (Except Errno Nat × MountMemory) := do
  let (res, strings) ← userStrndup answers maxn mem.strings
  pure (res, { mem with strings := strings })

def kfreeString (addr : Nat) (mem : MountMemory) : Exec MountMemory :=
  if addr = 0 then .error .panic
  else do
    let strings ← mem.strings.free addr
    pure { mem with strings := strings }

/-- `if (ptr) kfree(ptr)`. -/
def kfreeIfSet (addr : Nat) (mem : MountMemory) : Exec MountMemory :=
  if addr = 0 then .ok mem else mem.kfreeString addr

def kfreeFs (addr : Nat) (mem : MountMemory) : Exec MountMemory := do
  let filesystems ← mem.filesystems.free addr
  pure { mem with filesystems := filesystems }

def modifyFs (fs : Nat) (change : FsPointers → FsPointers) (mem : MountMemory) : Exec MountMemory := do
  let old ← mem.filesystems.load fs
  let filesystems ← mem.filesystems.store fs (change old)
  pure { mem with filesystems := filesystems }

/-- `out_err` of `vfs_new_fs`. -/
def newFsOutErr (newfs : Nat) (error : Errno) (mem : MountMemory) :
    Exec (Except Errno Nat × MountMemory) := do
  let fs ← mem.filesystems.load newfs
  let mem ← mem.kfreeIfSet fs.mntsrc
  let mem ← mem.kfreeIfSet fs.mntpoint
  let mem ← mem.kfreeIfSet fs.args
  let mem ← mem.kfreeFs newfs
  pure (.error error, mem)

/-- The end of `vfs_new_fs`, with its strings copied. -/
def newFsLink (newfs node : Nat) (mem : MountMemory) : Exec (Except Errno Nat × MountMemory) := do
  let (st, ll) ← mem.filesystemsLl.linkedlistAdd newfs node
  let mem := { mem with filesystemsLl := ll }
  if st < 0 then mem.newFsOutErr newfs enomem else pure (.ok newfs, mem)

/-- The part of `vfs_new_fs` that copies `args`, if there are any. -/
def newFsArgs (answers : MountAnswers) (mem : MountMemory) : Exec (Except Errno Nat × MountMemory) :=
  match answers.args with
  | none => mem.newFsLink answers.newfs answers.node
  | some args => do
    match ← mem.strndup args pathMax with
    | (.error st, mem) => mem.newFsOutErr answers.newfs st
    | (.ok str, mem) => do
      let mem ← mem.modifyFs answers.newfs fun fs => { fs with args := str }
      mem.newFsLink answers.newfs answers.node

def newFsMntpoint (answers : MountAnswers) (mem : MountMemory) :
    Exec (Except Errno Nat × MountMemory) := do
  match ← mem.strndup answers.dest pathMax with
  | (.error st, mem) => mem.newFsOutErr answers.newfs st
  | (.ok str, mem) => do
    let mem ← mem.modifyFs answers.newfs fun fs => { fs with mntpoint := str }
    mem.newFsArgs answers

def vfsNewFs (answers : MountAnswers) (mem : MountMemory) :
    Exec (Except Errno Nat × MountMemory) :=
  if answers.newfs = 0 then .ok (.error enomem, mem)
  else do
    let filesystems ← mem.filesystems.alloc answers.newfs ⟨0, 0, 0, 0, 0⟩
    match ← { mem with filesystems := filesystems }.strndup answers.src pathMax with
    | (.error st, mem) => mem.newFsOutErr answers.newfs st
    | (.ok str, mem) => do
      let mem ← mem.modifyFs answers.newfs fun fs => { fs with mntsrc := str }
      mem.newFsMntpoint answers

def vfsFreeFs (fuel fs : Nat) (mem : MountMemory) : Exec MountMemory := do
  let (st, ll) ← mem.filesystemsLl.linkedlistRemoveByData fs fuel
  let mem := { mem with filesystemsLl := ll }
  if st ≠ 0 then pure mem
  else do
    let old ← mem.filesystems.load fs
    let mem ← mem.kfreeString old.mntsrc
    let mem ← mem.kfreeString old.mntpoint
    let mem ← mem.kfreeIfSet old.args
    mem.kfreeFs fs

/-- The loop of `vfs_mount` over the registered drivers. -/
def vfsMountLoop (drv : Nat → FsDriver) (init : Nat → Int) (safeType fs : Nat) :
    List Nat → MountMemory → Exec (Int × MountMemory)
  | [], mem => .ok (-2, mem)
  | driver :: rest, mem => do
    let mem ← mem.modifyFs fs fun fs => { fs with driver := driver }
    if safeType ≠ 0 then do
      let type ← mem.strings.load safeType
      if (drv driver).name = type then pure (init driver, mem)
      else vfsMountLoop drv init safeType fs rest mem
    else if (drv driver).genericProbe ∧ init driver ≠ -2 then pure (init driver, mem)
    else vfsMountLoop drv init safeType fs rest mem

/-- `vfs_mount` from the loop on. -/
def mountFs (drv : Nat → FsDriver) (drivers : List Nat) (init : Nat → Int) (fuel fs safeType : Nat)
    (mem : MountMemory) : Exec (Int × MountMemory) := do
  let (st, mem) ← vfsMountLoop drv init safeType fs drivers mem
  let mem ← if st < 0 then mem.vfsFreeFs fuel fs else pure mem
  let mem ← mem.kfreeIfSet safeType
  pure (st, mem)

def vfsMount (drv : Nat → FsDriver) (drivers : List Nat) (fuel : Nat) (answers : MountAnswers)
    (flags : BitVec 32) (mem : MountMemory) : Exec (Int × MountMemory) := do
  match ← mem.vfsNewFs answers with
  | (.error st, mem) => pure (st, mem)
  | (.ok fs, mem) => do
    let mem ← mem.modifyFs fs fun fs => { fs with flags := flags }
    match answers.type with
    | none => mem.mountFs drv drivers answers.init fuel fs 0
    | some type => do
      match ← mem.strndup type vfsTypeMax with
      | (.error st, mem) => do
        let mem ← mem.vfsFreeFs fuel fs
        pure (st, mem)
      | (.ok safeType, mem) => mem.mountFs drv drivers answers.init fuel fs safeType

end MountMemory

end Dxgmx
