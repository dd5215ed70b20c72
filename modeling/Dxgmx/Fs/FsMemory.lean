import Dxgmx.Utils.LinkedList

open Library

namespace Dxgmx

/-- What the heap holds for a file system, with the pointers that its drivers follow. Names and
    what files contain are bytes. -/
inductive FsBlock
  | listNode (data next : Nat)
  | vnode (name : Nat)
  | bytes
  | ramfsMetadata (files fileCapacity : Nat)
  | ramfsFiles (data : List Nat)
  | fat32Ctx
  deriving DecidableEq

/-- The heap and the fields of a file system that its teardown uses. NULL is 0. -/
structure FsMemory where
  heap : Blocks FsBlock
  driverCtx : Nat
  vnodeLl : LinkedList

namespace FsMemory

def kfree (addr : Nat) (mem : FsMemory) : Exec FsMemory :=
  if addr = 0 then .error .panic
  else do
    let heap ← mem.heap.free addr
    pure { mem with heap := heap }

def store (addr : Nat) (block : FsBlock) (mem : FsMemory) : Exec FsMemory := do
  let heap ← mem.heap.store addr block
  pure { mem with heap := heap }

def listNode (addr : Nat) (mem : FsMemory) : Exec (Nat × Nat) :=
  match mem.heap addr with
  | some (.listNode data next) => .ok (data, next)
  | _ => .error .fault

def vnodeName (addr : Nat) (mem : FsMemory) : Exec Nat :=
  match mem.heap addr with
  | some (.vnode name) => .ok name
  | _ => .error .fault

def ramfsMetadata (addr : Nat) (mem : FsMemory) : Exec (Nat × Nat) :=
  match mem.heap addr with
  | some (.ramfsMetadata files fileCapacity) => .ok (files, fileCapacity)
  | _ => .error .fault

def ramfsFiles (addr : Nat) (mem : FsMemory) : Exec (List Nat) :=
  match mem.heap addr with
  | some (.ramfsFiles data) => .ok data
  | _ => .error .fault

/-- The loop that walks to a position. -/
def linkedlistWalk (mem : FsMemory) : (left prevNode n : Nat) → Exec (Nat × Nat)
  | 0, prevNode, n => .ok (prevNode, n)
  | left + 1, prevNode, n =>
    if n = 0 then .ok (prevNode, n)
    else do
      let (_, next) ← mem.listNode n
      linkedlistWalk mem left n next

def linkedlistRemoveByPosition (pos : Nat) (mem : FsMemory) : Exec (Int × FsMemory) := do
  let (prevNode, n) ← linkedlistWalk mem pos 0 mem.vnodeLl.root
  if n = 0 then pure (-2, mem)
  else
    let last := if mem.vnodeLl.last = n then prevNode else mem.vnodeLl.last
    let (_, next) ← mem.listNode n
    let mem ← if prevNode = 0 then pure { mem with vnodeLl := ⟨next, last⟩ }
      else do
        let (data, _) ← mem.listNode prevNode
        { mem with vnodeLl := ⟨mem.vnodeLl.root, last⟩ }.store prevNode (.listNode data next)
    let mem ← mem.kfree n
    pure (0, mem)

/-- The body of the loop of `fs_free_all_cached_vnodes`, with its condition. -/
def fsFreeFirstVnode (mem : FsMemory) : Exec (Int × FsMemory) := do
  let (vnode, _) ← mem.listNode mem.vnodeLl.root
  let name ← mem.vnodeName vnode
  let mem ← mem.kfree name
  let mem ← mem.store vnode (.vnode 0)
  let mem ← mem.kfree vnode
  mem.linkedlistRemoveByPosition 0

def fsFreeVnodesLoop : (fuel : Nat) → FsMemory → Exec FsMemory
  | 0, _ => .error .fuel
  | fuel + 1, mem => do
    let (st, mem) ← mem.fsFreeFirstVnode
    if st = 0 then fsFreeVnodesLoop fuel mem else pure mem

def fsFreeAllCachedVnodes (fuel : Nat) (mem : FsMemory) : Exec FsMemory :=
  if mem.vnodeLl.root = 0 then .ok mem else fsFreeVnodesLoop fuel mem

/-- The loop of `ramfs_destroy` over the files. -/
def ramfsFreeFiles : (left i : Nat) → FsMemory → Exec FsMemory
  | 0, _, mem => .ok mem
  | left + 1, i, mem => do
    let (files, _) ← mem.ramfsMetadata mem.driverCtx
    let data ← mem.ramfsFiles files
    match data[i]? with
    | none => .error .fault
    | some addr =>
      if addr = 0 then ramfsFreeFiles left (i + 1) mem
      else do
        let mem ← mem.kfree addr
        let mem ← mem.store files (.ramfsFiles (data.set i 0))
        ramfsFreeFiles left (i + 1) mem

/-- The part of `ramfs_destroy` that frees what the driver holds of its own. -/
def ramfsFreeMetadata (mem : FsMemory) : Exec FsMemory := do
  let (files, fileCapacity) ← mem.ramfsMetadata mem.driverCtx
  let mem ← ramfsFreeFiles fileCapacity 0 mem
  let mem ← if files = 0 then pure mem
    else do
      let mem ← mem.kfree files
      mem.store mem.driverCtx (.ramfsMetadata 0 0)
  let mem ← mem.kfree mem.driverCtx
  pure { mem with driverCtx := 0 }

def ramfsDestroy (fuel : Nat) (mem : FsMemory) : Exec FsMemory := do
  let mem ← mem.ramfsFreeMetadata
  mem.fsFreeAllCachedVnodes fuel

/-- The loop of `fat_destroy` over the vnodes. -/
def fatFreeNames : (fuel node : Nat) → FsMemory → Exec FsMemory
  | fuel, node, mem =>
    if node = 0 then .ok mem
    else
      match fuel with
      | 0 => .error .fuel
      | fuel + 1 => do
        let (vnode, _) ← mem.listNode node
        let mem ← if vnode = 0 then pure mem
          else do
            let name ← mem.vnodeName vnode
            mem.kfree name
        let (_, next) ← mem.listNode node
        fatFreeNames fuel next mem

def fatDestroy (fuel : Nat) (mem : FsMemory) : Exec FsMemory := do
  let mem ← if mem.driverCtx = 0 then pure mem
    else do
      let mem ← mem.kfree mem.driverCtx
      pure { mem with driverCtx := 0 }
  let mem ← fatFreeNames fuel mem.vnodeLl.root mem
  mem.fsFreeAllCachedVnodes fuel

end FsMemory

/-- The addresses of a cached vnode, its name and its list node. -/
structure CachedVnode where
  node : Nat
  vnode : Nat
  name : Nat
  deriving DecidableEq

namespace FsMemory

/-- `linkedlist_add`, with the node at the address that `kmalloc` answers. -/
def linkedlistAdd (data node : Nat) (mem : FsMemory) : Exec FsMemory := do
  let mem ← if mem.vnodeLl.last = 0 then pure { mem with vnodeLl := ⟨node, mem.vnodeLl.last⟩ }
    else do
      let (old, _) ← mem.listNode mem.vnodeLl.last
      mem.store mem.vnodeLl.last (.listNode old node)
  pure { mem with
    heap := Function.update mem.heap node (some (.listNode data 0))
    vnodeLl := ⟨mem.vnodeLl.root, node⟩ }

/-- `fs_new_vnode_cache`, where it finds memory. -/
def fsNewVnodeCache (cached : CachedVnode) (mem : FsMemory) : Exec FsMemory :=
  { mem with
    heap := Function.update (Function.update mem.heap cached.vnode (some (.vnode cached.name)))
      cached.name (some .bytes) }.linkedlistAdd cached.vnode cached.node

end FsMemory

/-- What `fat_init` gets from the block device, the allocator and its directory. -/
structure FatInitAnswers where
  blkdev : Bool
  validate : Int
  fatctx : Option Nat
  parseMetadata : Int
  isFat32 : Bool
  rootVnode : Option CachedVnode
  rootFound : Bool
  enumerated : List CachedVnode
  enumerate : Int

namespace FsMemory

def fatCacheVnodes : List CachedVnode → FsMemory → Exec FsMemory
  | [], mem => .ok mem
  | cached :: rest, mem => do
    let mem ← mem.fsNewVnodeCache cached
    fatCacheVnodes rest mem

/-- `fat_init` once its context is allocated. -/
def fatInitCtx (answers : FatInitAnswers) (fuel : Nat) (mem : FsMemory) :
    Exec (Int × FsMemory) :=
  if answers.parseMetadata < 0 then do
    let mem ← mem.fatDestroy fuel
    pure (answers.parseMetadata, mem)
  else if answers.isFat32 = false then do
    let mem ← mem.fatDestroy fuel
    pure (-22, mem)
  else
    match answers.rootVnode with
    | none => do
      let mem ← mem.fatDestroy fuel
      pure (-12, mem)
    | some root => do
      let mem ← mem.fsNewVnodeCache root
      assert (answers.rootFound = true)
      let mem ← fatCacheVnodes answers.enumerated mem
      if answers.enumerate < 0 then do
        let mem ← mem.fatDestroy fuel
        pure (answers.enumerate, mem)
      else pure (0, mem)

def fatInit (answers : FatInitAnswers) (fuel : Nat) (mem : FsMemory) : Exec (Int × FsMemory) :=
  if answers.blkdev = false then .ok (-15, mem)
  else if answers.validate < 0 then .ok (answers.validate, mem)
  else
    match answers.fatctx with
    | none => .ok (-12, mem)
    | some fatctx => fatInitCtx answers fuel { mem with
        heap := Function.update mem.heap fatctx (some .fat32Ctx)
        driverCtx := fatctx }

end FsMemory

end Dxgmx
