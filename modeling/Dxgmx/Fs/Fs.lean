import Dxgmx.Fs.Path
import Dxgmx.Fs.VfsFdt

open Library

namespace Dxgmx

/-- The drivers of the kernel. -/
inductive FileSystemDriver
  | ramfs
  | devfs
  | fatfs
  deriving DecidableEq

/-- The operations of a vnode: those of its driver, or those that stand at an address. -/
inductive VirtualNodeOperations
  | driver (driver : FileSystemDriver)
  | registered (addr : Nat)
  deriving DecidableEq

structure VirtualNode where
  addr : VirtualNodeRef
  name : List Byte
  n : Nat
  size : BitVec 32
  mode : BitVec 32
  refCount : Nat
  pendingRm : Bool
  parent : Option VirtualNodeRef
  uid : BitVec 32
  gid : BitVec 32
  ops : VirtualNodeOperations
  data : Nat
  deriving DecidableEq

def VirtualNode.IsDir (vnode : VirtualNode) : Prop := vnode.mode &&& 0x4000 ≠ 0

instance (vnode : VirtualNode) : Decidable vnode.IsDir :=
  inferInstanceAs (Decidable (vnode.mode &&& 0x4000 ≠ 0))

/-- `files` says of each `RamFsFileData` whether it is used. -/
structure RamFsMetadata where
  files : List Bool
  fileCursor : Nat
  deriving DecidableEq

/-- The vnodes of `vnode_ll` stand in the list itself: `owner` is the file system they are in. -/
structure FileSystem where
  addr : Nat
  mntsrc : List Byte
  mntpoint : List Byte
  driver : FileSystemDriver
  driverCtx : Option RamFsMetadata
  vnodeLl : List VirtualNode
  deriving DecidableEq

def FileSystem.vnodeAt (fs : FileSystem) (addr : VirtualNodeRef) : Option VirtualNode :=
  fs.vnodeLl.find? fun vnode => vnode.addr = addr

theorem find?_addr {vnodes : List VirtualNode} (nodup : (vnodes.map VirtualNode.addr).Nodup)
    {addr : VirtualNodeRef} {vnode : VirtualNode} :
    vnodes.find? (fun other => other.addr = addr) = some vnode ↔
      vnode ∈ vnodes ∧ vnode.addr = addr := by
  constructor
  · intro found
    exact ⟨List.mem_of_find?_eq_some found, by simpa using List.find?_some found⟩
  · rintro ⟨member, rfl⟩
    cases found : vnodes.find? fun other => other.addr = vnode.addr with
    | none =>
      have missed := List.find?_eq_none.mp found vnode member
      simp at missed
    | some other =>
      have same : other.addr = vnode.addr := by simpa using List.find?_some found
      rw [List.inj_on_of_nodup_map nodup (List.mem_of_find?_eq_some found) member same]

/-- What `fs_lookup_vnode_cached_relative` puts into `tmp_path` for a vnode. A step that adds
    nothing moves the buffer from an index below zero on. -/
def fsVnodePathLoop (fs : FileSystem) :
    (fuel : Nat) → (tmpPath : List Byte) → (addslash : Bool) → VirtualNode → Exec (List Byte)
  | 0, _, _, _ => .error .fuel
  | fuel + 1, tmpPath, addslash, working =>
    let curLen := working.name.length + addslash.toNat
    if pathMax ≤ tmpPath.length + curLen then .ok tmpPath
    else if curLen = 0 then .error .fault
    else
      let tmpPath := working.name ++ List.replicate addslash.toNat slash ++ tmpPath
      match working.parent with
      | none => .ok tmpPath
      | some parent =>
        match fs.vnodeAt parent with
        | none => .error .fault
        | some parent => fsVnodePathLoop fs fuel tmpPath parent.parent.isSome parent

/-- Each step but the last makes the path longer. -/
def fsVnodePath (fs : FileSystem) (vnode : VirtualNode) : Exec (List Byte) :=
  fsVnodePathLoop fs pathMax [] false vnode

def fsLookupVnodeCachedRelativeLoop (path : List Byte) (fs : FileSystem) :
    List VirtualNode → Exec (Option VirtualNode)
  | [] => .ok none
  | vnode :: rest => do
    let tmpPath ← fsVnodePath fs vnode
    if tmpPath = path then pure (some vnode)
    else fsLookupVnodeCachedRelativeLoop path fs rest

def fsLookupVnodeCachedRelative (path : List Byte) (fs : FileSystem) : Exec (Option VirtualNode) :=
  fsLookupVnodeCachedRelativeLoop path fs fs.vnodeLl

def fsLookupVnode (path : List Byte) (fs : FileSystem) : Exec (Except Int VirtualNode) :=
  match pathMakeRelative (pathMakeCanonical path) fs.mntpoint with
  | .error st => .ok (.error st)
  | .ok relative => do
    match ← fsLookupVnodeCachedRelative relative fs with
    | none => pure (.error (-2))
    | some vnode => pure (.ok vnode)

def fsGetDirVnodeForFile (path : List Byte) (fs : FileSystem) : Exec (Option VirtualNode) :=
  match strrchr path slash with
  | none => .error .panic
  | some slashIdx =>
    fsLookupVnodeCachedRelative (path.take (if 0 < slashIdx then slashIdx else 1)) fs

/-- `mem` says whether the vnode, its name and its list node are found memory. The vnode takes the
    address `fresh`. -/
def fsNewVnodeCache (mem : Bool) (fresh : VirtualNodeRef) (name : List Byte) (fs : FileSystem) :
    Option (VirtualNode × FileSystem) :=
  if mem = false then none
  else
    let vnode : VirtualNode :=
      ⟨fresh, name, 0, 0, 0, 0, false, none, 0, 0, .driver fs.driver, 0⟩
    some (vnode, { fs with vnodeLl := fs.vnodeLl ++ [vnode] })

/-- A store to the fields of a cached vnode. -/
def FileSystem.setVnode (fs : FileSystem) (vnode : VirtualNode) : FileSystem :=
  { fs with vnodeLl := fs.vnodeLl.map fun old => if old.addr = vnode.addr then vnode else old }

def fsFreeCachedVnode (addr : VirtualNodeRef) (fs : FileSystem) : FileSystem :=
  { fs with vnodeLl := fs.vnodeLl.eraseP fun vnode => vnode.addr = addr }

/-- The loop of `ramfs_find_next_avail_fd`: the index of the first file from `idx` on that is not
    used. -/
def ramfsFindLoop : (idx : Nat) → List Bool → Option Nat
  | _, [] => none
  | idx, used :: rest => if used then ramfsFindLoop (idx + 1) rest else some idx

def ramfsFindNextAvailFd (mem : Bool) (ctx : RamFsMetadata) : Except Int Nat × RamFsMetadata :=
  match ramfsFindLoop ctx.fileCursor (ctx.files.drop ctx.fileCursor) with
  | some idx => (.ok (idx + 1), ⟨ctx.files.set idx true, idx + 1⟩)
  | none =>
    let fileCursor := max ctx.fileCursor ctx.files.length
    if mem = false then (.error (-12), { ctx with fileCursor := fileCursor })
    else
      (.ok fileCursor, ⟨ctx.files ++ List.replicate ctx.files.length false, fileCursor⟩)

structure MkfileMem where
  vnode : Bool
  files : Bool

def ramfsMkfile (mem : MkfileMem) (fresh : VirtualNodeRef) (dir : Option VirtualNodeRef)
    (name : List Byte) (mode uid gid : BitVec 32) (fs : FileSystem) :
    Exec (Except Int Nat × FileSystem) :=
  match fs.driverCtx with
  | none => .error .panic
  | some ctx =>
    match fsNewVnodeCache mem.vnode fresh name fs with
    | none => .ok (.error (-12), fs)
    | some (vnode, fs) =>
      match ramfsFindNextAvailFd mem.files ctx with
      | (.error st, ctx) =>
        .ok (.error st, fsFreeCachedVnode vnode.addr { fs with driverCtx := some ctx })
      | (.ok n, ctx) =>
        let vnode :=
          { vnode with n := n, mode := mode, size := 0, uid := uid, gid := gid, parent := dir }
        let ctx := { ctx with files := ctx.files.set (n - 1) true }
        .ok (.ok n, { fs with driverCtx := some ctx }.setVnode vnode)

/-- Removing a directory is not implemented. -/
def ramfsRmnode (vnode : VirtualNode) (fs : FileSystem) : Exec FileSystem :=
  match fs.driverCtx with
  | none => .error .panic
  | some ctx =>
    if vnode.IsDir then .error .panic
    else
      let ctx : RamFsMetadata := ⟨ctx.files.set (vnode.n - 1) false, vnode.n - 1⟩
      .ok (fsFreeCachedVnode vnode.addr { fs with driverCtx := some ctx })

/-- `driver->mkfile`. A fatfs cannot make files yet. -/
def FileSystem.mkfile (mem : MkfileMem) (fresh : VirtualNodeRef) (dir : Option VirtualNodeRef)
    (name : List Byte) (mode uid gid : BitVec 32) (fs : FileSystem) :
    Exec (Except Int Nat × FileSystem) :=
  match fs.driver with
  | .fatfs => .error .panic
  | .ramfs | .devfs => ramfsMkfile mem fresh dir name mode uid gid fs

/-- `driver->rmnode`. A fatfs cannot remove files yet. -/
def FileSystem.rmnode (vnode : VirtualNode) (fs : FileSystem) : Exec FileSystem :=
  match fs.driver with
  | .fatfs => .error .panic
  | .ramfs | .devfs => ramfsRmnode vnode fs

def fsMkfile (mem : MkfileMem) (fresh : VirtualNodeRef) (path : List Byte)
    (mode uid gid : BitVec 32) (fs : FileSystem) : Exec (Except Int Nat × FileSystem) :=
  match pathMakeRelative (pathMakeCanonical path) fs.mntpoint with
  | .error st => .ok (.error st, fs)
  | .ok relative => do
    let parent ← fsGetDirVnodeForFile relative fs
    let name ← pathMakeFilename relative
    fs.mkfile mem fresh (parent.map VirtualNode.addr) name mode uid gid

theorem fsLookupVnodeCachedRelativeLoop_cons {path found : List Byte} {fs : FileSystem}
    {vnode : VirtualNode} (atPath : fsVnodePath fs vnode = .ok found) (rest : List VirtualNode) :
    fsLookupVnodeCachedRelativeLoop path fs (vnode :: rest) =
      if found = path then .ok (some vnode) else fsLookupVnodeCachedRelativeLoop path fs rest := by
  rw [fsLookupVnodeCachedRelativeLoop, atPath]
  rfl

theorem fsLookupVnode_relative {path relative : List Byte} {fs : FileSystem}
    (below : pathMakeRelative (pathMakeCanonical path) fs.mntpoint = .ok relative)
    {hit : Option VirtualNode} (found : fsLookupVnodeCachedRelative relative fs = .ok hit) :
    fsLookupVnode path fs = .ok (hit.elim (.error (-2)) .ok) := by
  unfold fsLookupVnode
  rw [below]
  show (fsLookupVnodeCachedRelative relative fs >>= _) = _
  rw [found]
  cases hit <;> rfl

theorem ramfsFindNextAvailFd_error {mem : Bool} {ctx ctx' : RamFsMetadata} {st : Int}
    (h : ramfsFindNextAvailFd mem ctx = (.error st, ctx')) : st = -12 := by
  unfold ramfsFindNextAvailFd at h
  split at h
  · cases h
  · dsimp only at h
    split at h
    · cases h
      rfl
    · cases h

theorem eraseP_concat_fresh {vnodes : List VirtualNode} {vnode : VirtualNode}
    (unused : ∀ other ∈ vnodes, other.addr ≠ vnode.addr) :
    (vnodes ++ [vnode]).eraseP (fun other => other.addr = vnode.addr) = vnodes := by
  rw [List.eraseP_append_right _ fun other member => by simpa using unused other member,
    List.eraseP_cons_of_pos (by simp), List.append_nil]

theorem mem_eraseP_addr {vnodes : List VirtualNode} (nodup : (vnodes.map VirtualNode.addr).Nodup)
    (addr : VirtualNodeRef) (vnode : VirtualNode) :
    vnode ∈ vnodes.eraseP (fun other => other.addr = addr) ↔
      vnode ∈ vnodes ∧ vnode.addr ≠ addr := by
  induction vnodes with
  | nil => simp
  | cons first rest ih =>
    rw [List.map_cons, List.nodup_cons] at nodup
    by_cases here : first.addr = addr
    · rw [List.eraseP_cons_of_pos (by simpa using here), List.mem_cons]
      constructor
      · intro inside
        refine ⟨.inr inside, fun same => nodup.1 ?_⟩
        rw [here, ← same]
        exact List.mem_map_of_mem inside
      · rintro ⟨rfl | inside, other⟩
        · exact absurd here other
        · exact inside
    · rw [List.eraseP_cons_of_neg (by simpa using here), List.mem_cons, List.mem_cons, ih nodup.2]
      constructor
      · rintro (rfl | ⟨inside, other⟩)
        · exact ⟨.inl rfl, here⟩
        · exact ⟨.inr inside, other⟩
      · rintro ⟨rfl | inside, other⟩
        · exact .inl rfl
        · exact .inr ⟨inside, other⟩

theorem map_concat_fresh {vnodes : List VirtualNode} {vnode stored : VirtualNode}
    (same : vnode.addr = stored.addr) (unused : ∀ other ∈ vnodes, other.addr ≠ stored.addr) :
    (vnodes ++ [vnode]).map (fun old => if old.addr = stored.addr then stored else old) =
      vnodes ++ [stored] := by
  rw [List.map_append, List.map_singleton, if_pos same]
  congr 1
  conv_rhs => rw [← List.map_id vnodes]
  exact List.map_congr_left fun other member => if_neg (unused other member)

theorem nodup_addr_concat {vnodes : List VirtualNode} {vnode : VirtualNode}
    (nodup : (vnodes.map VirtualNode.addr).Nodup)
    (unused : ∀ other ∈ vnodes, other.addr ≠ vnode.addr) :
    ((vnodes ++ [vnode]).map VirtualNode.addr).Nodup := by
  rw [List.map_append, List.map_singleton, List.nodup_append]
  refine ⟨nodup, List.nodup_singleton _, fun addr before other here => ?_⟩
  obtain ⟨old, member, rfl⟩ := List.mem_map.mp before
  rw [List.mem_singleton.mp here]
  exact unused old member

/-- A ramfs that makes a file caches one vnode for it, and one that does not caches none. -/
theorem ramfsMkfile_ok {mem : MkfileMem} {fresh : VirtualNodeRef} {dir : Option VirtualNodeRef}
    {name : List Byte} {mode uid gid : BitVec 32} {fs fs' : FileSystem} {res : Except Int Nat}
    (unused : ∀ vnode ∈ fs.vnodeLl, vnode.addr ≠ fresh)
    (h : ramfsMkfile mem fresh dir name mode uid gid fs = .ok (res, fs')) :
    ∃ ctx, (res = .error (-12) ∧ fs' = { fs with driverCtx := some ctx }) ∨
      ∃ n, res = .ok n ∧ fs' = { fs with
        driverCtx := some ctx
        vnodeLl := fs.vnodeLl ++
          [⟨fresh, name, n, 0, mode, 0, false, dir, uid, gid, .driver fs.driver, 0⟩] } := by
  unfold ramfsMkfile fsNewVnodeCache at h
  split at h
  · cases h
  · rename_i ctx here
    by_cases full : mem.vnode = false
    · rw [if_pos full] at h
      cases h
      refine ⟨ctx, .inl ⟨rfl, ?_⟩⟩
      rw [← here]
    · rw [if_neg full] at h
      dsimp only at h
      split at h
      · rename_i st ctx' failed
        cases h
        refine ⟨ctx', .inl ⟨by rw [ramfsFindNextAvailFd_error failed], ?_⟩⟩
        unfold fsFreeCachedVnode
        dsimp only
        rw [@eraseP_concat_fresh _ ⟨fresh, _, _, _, _, _, _, _, _, _, _, _⟩ unused]
      · rename_i n ctx' found
        cases h
        refine ⟨⟨ctx'.files.set (n - 1) true, ctx'.fileCursor⟩, .inr ⟨n, rfl, ?_⟩⟩
        have stored := @map_concat_fresh fs.vnodeLl
          ⟨fresh, name, 0, 0, 0, 0, false, none, 0, 0, .driver fs.driver, 0⟩
          ⟨fresh, name, n, 0, mode, 0, false, dir, uid, gid, .driver fs.driver, 0⟩ rfl unused
        unfold FileSystem.setVnode
        rw [← stored]

/-- Two states of one file system. -/
structure FileSystem.Same (fs fs' : FileSystem) : Prop where
  addr : fs'.addr = fs.addr
  mntpoint : fs'.mntpoint = fs.mntpoint

theorem fsMkfile_ok {mem : MkfileMem} {fresh : VirtualNodeRef} {path : List Byte}
    {mode uid gid : BitVec 32} {fs fs' : FileSystem} {res : Except Int Nat}
    (unused : ∀ vnode ∈ fs.vnodeLl, vnode.addr ≠ fresh)
    (h : fsMkfile mem fresh path mode uid gid fs = .ok (res, fs')) :
    fs.Same fs' ∧ ∃ added, fs'.vnodeLl = fs.vnodeLl ++ added ∧
      (added = [] ∨ ∃ name n dir,
        added = [⟨fresh, name, n, 0, mode, 0, false, dir, uid, gid, .driver fs.driver, 0⟩]) := by
  unfold fsMkfile at h
  split at h
  · cases h
    exact ⟨⟨rfl, rfl⟩, [], (List.append_nil _).symm, .inl rfl⟩
  · obtain ⟨dir, -, h⟩ := Exec.bind_ok.mp h
    obtain ⟨name, -, h⟩ := Exec.bind_ok.mp h
    have made : ramfsMkfile mem fresh (dir.map VirtualNode.addr) name mode uid gid fs =
        .ok (res, fs') := by
      unfold FileSystem.mkfile at h
      split at h
      · cases h
      · exact h
      · exact h
    obtain ⟨ctx, ⟨-, rfl⟩ | ⟨n, -, rfl⟩⟩ := ramfsMkfile_ok unused made
    · exact ⟨⟨rfl, rfl⟩, [], (List.append_nil _).symm, .inl rfl⟩
    · exact ⟨⟨rfl, rfl⟩, _, rfl, .inr ⟨name, n, _, rfl⟩⟩

theorem rmnode_erase {vnode : VirtualNode} {fs fs' : FileSystem} (h : fs.rmnode vnode = .ok fs') :
    ∃ ctx, fs' = { fs with
      driverCtx := some ctx
      vnodeLl := fs.vnodeLl.eraseP fun other => other.addr = vnode.addr } := by
  have removed : ramfsRmnode vnode fs = .ok fs' := by
    unfold FileSystem.rmnode at h
    split at h
    · cases h
    · exact h
    · exact h
  unfold ramfsRmnode at removed
  split at removed
  · cases removed
  · split at removed
    · cases removed
    · cases removed
      exact ⟨_, rfl⟩

theorem rmnode_ok {vnode : VirtualNode} {fs fs' : FileSystem}
    (h : fs.rmnode vnode = .ok fs') :
    fs.Same fs' ∧ fs'.vnodeLl = fs.vnodeLl.eraseP fun other => other.addr = vnode.addr := by
  obtain ⟨ctx, rfl⟩ := rmnode_erase h
  exact ⟨⟨rfl, rfl⟩, rfl⟩

theorem fsVnodePathLoop_step {fs : FileSystem} {fuel : Nat} {tmpPath : List Byte}
    {addslash : Bool} {working : VirtualNode}
    (fits : tmpPath.length + (working.name.length + addslash.toNat) < pathMax)
    (grows : 0 < working.name.length + addslash.toNat) :
    fsVnodePathLoop fs (fuel + 1) tmpPath addslash working =
      match working.parent with
      | none => .ok (working.name ++ List.replicate addslash.toNat slash ++ tmpPath)
      | some parent =>
        match fs.vnodeAt parent with
        | none => .error .fault
        | some parent =>
          fsVnodePathLoop fs fuel (working.name ++ List.replicate addslash.toNat slash ++ tmpPath)
            parent.parent.isSome parent := by
  rw [fsVnodePathLoop]
  exact (if_neg (Nat.not_le_of_lt fits)).trans (if_neg (Nat.pos_iff_ne_zero.mp grows))

theorem fsVnodePath_root (fs : FileSystem) {vnode : VirtualNode} (top : vnode.parent = none)
    (named : vnode.name ≠ []) (short : vnode.name.length < pathMax) :
    fsVnodePath fs vnode = .ok vnode.name := by
  show fsVnodePathLoop fs (511 + 1) [] false vnode = .ok vnode.name
  rw [fsVnodePathLoop_step, top]
  · simp
  · simpa using short
  · exact List.length_pos_iff.mpr named

end Dxgmx
