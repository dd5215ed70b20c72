import Dxgmx.Fs.FileCreation

open Library

namespace Dxgmx

section Ramfs

def ramfsDirMode : BitVec 32 := 0x41ed

/-- Which blocks `ramfs_init` is given. -/
structure RamfsMem where
  metadata : Bool
  files : Bool
  root : MkfileMem

def ramfsDestroy (fs : FileSystem) : FileSystem := { fs with driverCtx := none, vnodeLl := [] }

/-- The block of the metadata is taken to be zero. -/
def ramfsInit (mem : RamfsMem) (fresh : VirtualNodeRef) (fs : FileSystem) :
    Exec (Int × FileSystem) :=
  if mem.metadata = false then .ok (-12, fs)
  else if mem.files = false then .ok (-12, ramfsDestroy fs)
  else do
    let (res, fs) ← ramfsMkfile mem.root fresh none [slash] ramfsDirMode 0 0
      { fs with driverCtx := some ⟨List.replicate 8 false, 0⟩ }
    match res with
    | .error st => pure (st, ramfsDestroy fs)
    | .ok _ => pure (0, fs)

end Ramfs

structure DevFSEntry where
  name : List Byte
  mode : BitVec 32
  uid : BitVec 32
  gid : BitVec 32
  ops : Nat
  data : Nat
  deriving DecidableEq

/-- `entry` holds the arguments. `mem` says whether the blocks are there, and the one of `fullname`
    is taken to hold the name. -/
def devfsRegister (mem : Bool) (entry : DevFSEntry) (registered : List DevFSEntry) :
    Int × List DevFSEntry :=
  if mem = false then (-12, registered)
  else
    let fullname := if entry.name.head? ≠ some slash then slash :: entry.name else entry.name
    (0, registered ++ [{ entry with name := fullname }])

def fsInoToVnode (ino : Nat) (fs : FileSystem) : Option VirtualNode :=
  fs.vnodeLl.find? fun vnode => vnode.n = ino

/-- The loop of `devfs_init`. The vnode of an entry takes the next address. -/
def devfsInitLoop (mem : VirtualNodeRef → MkfileMem) :
    (fresh : VirtualNodeRef) → List DevFSEntry → FileSystem → Exec FileSystem
  | _, [], fs => .ok fs
  | fresh, entry :: rest, fs =>
    if pathMax < fs.mntpoint.length + 1 + entry.name.length + 1 then
      devfsInitLoop mem (fresh + 1) rest fs
    else do
      let (res, fs) ← fsMkfile (mem fresh) fresh (fs.mntpoint ++ slash :: entry.name) entry.mode
        entry.uid entry.gid fs
      match res with
      | .error _ => devfsInitLoop mem (fresh + 1) rest fs
      | .ok n =>
        match fsInoToVnode n fs with
        | none => .error .fault
        | some vnode =>
          devfsInitLoop mem (fresh + 1) rest
            (fs.setVnode { vnode with ops := .registered entry.ops, data := entry.data })

def devfsInit (init : RamfsMem) (mem : VirtualNodeRef → MkfileMem) (fresh : VirtualNodeRef)
    (registered : List DevFSEntry) (fs : FileSystem) : Exec (Int × FileSystem) := do
  let (st, fs) ← ramfsInit init fresh fs
  if st < 0 then pure (st, fs)
  else do
    let fs ← devfsInitLoop mem (fresh + 1) registered fs
    pure (0, fs)

end Dxgmx
