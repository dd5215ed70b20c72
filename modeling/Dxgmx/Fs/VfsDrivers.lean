import Dxgmx.Fs.Mount
import Dxgmx.Library.Blocks
import Dxgmx.Library.GrownArray
import Dxgmx.Library.Runs

open Library

namespace Dxgmx

/-- A driver of a module, as the kernel reads it. Which one it is says its address. -/
structure FsDriver where
  name : List Byte
  genericProbe : Bool

/-- What a file system holds. `driver` is NULL until one is tried. -/
structure MountedFs where
  mntsrc : List Byte
  mntpoint : List Byte
  args : Option (List Byte)
  flags : BitVec 32
  driver : Nat

/-- `g_fs_drivers` with its count, `g_filesystems_ll`, and the allocations of the file systems. -/
structure VfsDrivers where
  fsDrivers : GrownArray Nat
  filesystemsLl : List Nat
  filesystems : Blocks MountedFs

namespace VfsDrivers

variable (drv : Nat → FsDriver)

def registered (vfs : VfsDrivers) : List Nat := vfs.fsDrivers.toList

/-- Nothing is registered and nothing is mounted. -/
def start : VfsDrivers := ⟨⟨fun _ => 0, 0⟩, [], fun _ => none⟩

/-- `addr` is what `kcalloc` answers and `node` whether there is memory for a node of the list. What
    is allocated before an error is given back. -/
def vfsNewFs (addr : Nat) (node : Bool) (mount : MountArgs) (vfs : VfsDrivers) :
    Exec (Except Int Nat × VfsDrivers) :=
  if addr = 0 then .ok (.error (-12), vfs)
  else
    match mount.src with
    | .error st => .ok (.error st, vfs)
    | .ok src =>
      match mount.dest with
      | .error st => .ok (.error st, vfs)
      | .ok dest =>
        match mount.args with
        | some (.error st) => .ok (.error st, vfs)
        | args =>
          if node = false then .ok (.error (-12), vfs)
          else do
            let args := args.bind Except.toOption
            let filesystems ← vfs.filesystems.alloc addr ⟨src, dest, args, 0, 0⟩
            pure (.ok addr, ⟨vfs.fsDrivers, vfs.filesystemsLl ++ [addr], filesystems⟩)

def vfsFreeFs (fs : Nat) (vfs : VfsDrivers) : Exec VfsDrivers :=
  if fs ∈ vfs.filesystemsLl then do
    let filesystems ← vfs.filesystems.free fs
    pure ⟨vfs.fsDrivers, vfs.filesystemsLl.erase fs, filesystems⟩
  else .ok vfs

/-- The loop of `vfs_mount`. The driver is stored before it is known to be the one. -/
def vfsMountLoop (init : Nat → MountedFs → Int) (type : Option (List Byte)) (fs : Nat) :
    List Nat → Blocks MountedFs → Exec (Int × Blocks MountedFs)
  | [], filesystems => .ok (-2, filesystems)
  | driver :: rest, filesystems => do
    let old ← filesystems.load fs
    let filesystems ← filesystems.store fs { old with driver := driver }
    let st := init driver { old with driver := driver }
    match type with
    | some safeType =>
      if (drv driver).name = safeType then pure (st, filesystems)
      else vfsMountLoop init type fs rest filesystems
    | none =>
      if (drv driver).genericProbe ∧ st ≠ -2 then pure (st, filesystems)
      else vfsMountLoop init type fs rest filesystems

/-- `init` is what the drivers answer. -/
def vfsMount (addr : Nat) (node : Bool) (init : Nat → MountedFs → Int) (mount : MountArgs)
    (flags : BitVec 32) (vfs : VfsDrivers) : Exec (Int × VfsDrivers) := do
  match ← vfsNewFs addr node mount vfs with
  | (.error st, vfs) => pure (st, vfs)
  | (.ok fs, vfs) => do
    let new ← vfs.filesystems.load fs
    let filesystems ← vfs.filesystems.store fs { new with flags := flags }
    match mount.type with
    | some (.error st) => do
      let vfs ← vfsFreeFs fs { vfs with filesystems := filesystems }
      pure (st, vfs)
    | type => do
      let (st, filesystems) ← vfsMountLoop drv init (type.bind Except.toOption) fs vfs.registered
        filesystems
      if st < 0 then do
        let vfs ← vfsFreeFs fs { vfs with filesystems := filesystems }
        pure (st, vfs)
      else pure (st, { vfs with filesystems := filesystems })

def vfsFindFsBySrcOrDest (srcOrDest : List Byte) (filesystems : Blocks MountedFs) :
    List Nat → Exec (Option Nat)
  | [] => .ok none
  | fs :: rest => do
    let mounted ← filesystems.load fs
    if mounted.mntsrc = srcOrDest ∨ mounted.mntpoint = srcOrDest then pure (some fs)
    else vfsFindFsBySrcOrDest srcOrDest filesystems rest

/-- `destroy` says whether the driver's comes back. -/
def vfsUnmount (destroy : Nat → MountedFs → Exec Unit) (srcOrDest : Option (List Byte))
    (vfs : VfsDrivers) : Exec (Int × VfsDrivers) :=
  match srcOrDest with
  | none => .ok (-22, vfs)
  | some srcOrDest => do
    match ← vfsFindFsBySrcOrDest srcOrDest vfs.filesystems vfs.filesystemsLl with
    | none => pure (-2, vfs)
    | some fs => do
      let mounted ← vfs.filesystems.load fs
      destroy mounted.driver mounted
      let vfs ← vfsFreeFs fs vfs
      pure (0, vfs)

/-- `mem` says whether the array can grow. -/
def vfsRegisterFsDriver (mem : Bool) (driver : Nat) (vfs : VfsDrivers) : Exec (Int × VfsDrivers) :=
  if driver = 0 then .error .fault
  else if vfs.registered.any fun other => (drv other).name = (drv driver).name then .ok (-17, vfs)
  else if mem = false then .ok (-12, vfs)
  else .ok (0, { vfs with fsDrivers := vfs.fsDrivers.push driver })

def fsDriverInUse (driver : Nat) (filesystems : Blocks MountedFs) : List Nat → Exec Bool
  | [] => .ok false
  | fs :: rest => do
    let mounted ← filesystems.load fs
    if mounted.driver = driver then pure true else fsDriverInUse driver filesystems rest

def vfsUnregisterFsDriver (driver : Nat) (vfs : VfsDrivers) : Exec (Int × VfsDrivers) :=
  match vfs.registered.findIdx? (· = driver) with
  | none => .ok (-2, vfs)
  | some hit => do
    if ← fsDriverInUse driver vfs.filesystems vfs.filesystemsLl then pure (-16, vfs)
    else
      pure (0, { vfs with
        fsDrivers := ⟨(vfs.fsDrivers.closeGap hit).slot, vfs.fsDrivers.count - 1⟩ })

/-- The drivers have names of their own, and those of what is mounted are registered. -/
structure Consistent (vfs : VfsDrivers) : Prop where
  names : (vfs.registered.map fun driver => (drv driver).name).Nodup
  listed : vfs.filesystems.Listed vfs.filesystemsLl
  driven : ∀ fs mounted, vfs.filesystems fs = some mounted → mounted.driver ∈ vfs.registered

variable {drv} {vfs : VfsDrivers} {filesystems : Blocks MountedFs} {fs driver : Nat} {old : MountedFs}

theorem vfsNewFs_spec (unused : vfs.filesystems fs = none) (node : Bool) (mount : MountArgs) :
    (∃ st, vfsNewFs fs node mount vfs = .ok (.error st, vfs)) ∨
    ∃ new, vfsNewFs fs node mount vfs = .ok (.ok fs,
      ⟨vfs.fsDrivers, vfs.filesystemsLl ++ [fs], Function.update vfs.filesystems fs (some new)⟩) := by
  unfold vfsNewFs
  by_cases null : fs = 0
  · exact .inl ⟨_, if_pos null⟩
  · rw [if_neg null]
    cases mount.src with
    | error st => exact .inl ⟨_, rfl⟩
    | ok src =>
      cases mount.dest with
      | error st => exact .inl ⟨_, rfl⟩
      | ok dest =>
        dsimp only
        split
        · exact .inl ⟨_, rfl⟩
        · by_cases full : node = false
          · exact .inl ⟨_, if_pos full⟩
          · rw [if_neg full, Blocks.alloc_ok.mpr ⟨unused, rfl⟩]
            exact .inr ⟨_, rfl⟩

theorem vfsFreeFs_spec (listed : vfs.filesystems.Listed vfs.filesystemsLl)
    (live : vfs.filesystems fs = some old) :
    vfsFreeFs fs vfs = .ok ⟨vfs.fsDrivers, vfs.filesystemsLl.erase fs,
      Function.update vfs.filesystems fs none⟩ := by
  unfold vfsFreeFs
  rw [if_pos ((listed.live fs).mpr ⟨old, live⟩), Blocks.free_eq live]
  rfl

/-- The file system keeps the last driver that was tried, and this is none where no one answered. -/
theorem vfsMountLoop_spec (init : Nat → MountedFs → Int) (type : Option (List Byte))
    (drivers : List Nat) (live : filesystems fs = some old) :
    ∃ st mounted, vfsMountLoop drv init type fs drivers filesystems =
        .ok (st, Function.update filesystems fs (some mounted)) ∧
      (mounted.driver ∈ drivers ∨ st < 0) := by
  induction drivers generalizing filesystems old with
  | nil =>
    refine ⟨-2, old, ?_, .inr (by decide)⟩
    rw [← live, Function.update_eq_self]
    rfl
  | cons driver rest ih =>
    unfold vfsMountLoop
    rw [Blocks.load_live live]
    change ∃ st mounted, (filesystems.store fs { old with driver := driver } >>= fun _ => _) = _ ∧ _
    rw [Blocks.store_live live]
    rcases ih (Function.update_self fs _ filesystems) with ⟨st, mounted, reached, driven⟩
    rw [Function.update_idem] at reached
    have later : mounted.driver ∈ driver :: rest ∨ st < 0 :=
      driven.imp_left (List.mem_cons_of_mem driver)
    have here : ({ old with driver := driver } : MountedFs).driver ∈ driver :: rest :=
      List.mem_cons_self
    cases type with
    | some safeType =>
      by_cases named : (drv driver).name = safeType
      · exact ⟨_, _, if_pos named, .inl here⟩
      · exact ⟨st, mounted, (if_neg named).trans reached, later⟩
    | none =>
      by_cases answered : (drv driver).genericProbe ∧ init driver { old with driver := driver } ≠ -2
      · exact ⟨_, _, if_pos answered, .inl here⟩
      · exact ⟨st, mounted, (if_neg answered).trans reached, later⟩

theorem vfsFindFsBySrcOrDest_spec (srcOrDest : List Byte) (list : List Nat)
    (live : ∀ fs ∈ list, ∃ mounted, filesystems fs = some mounted) :
    ∃ found, vfsFindFsBySrcOrDest srcOrDest filesystems list = .ok found ∧
      ∀ fs ∈ found, fs ∈ list := by
  induction list with
  | nil => exact ⟨none, rfl, nofun⟩
  | cons fs rest ih =>
    rcases live fs List.mem_cons_self with ⟨mounted, here⟩
    obtain ⟨found, reached, inside⟩ := ih fun other member => live other (List.mem_cons_of_mem fs member)
    unfold vfsFindFsBySrcOrDest
    rw [Blocks.load_live here]
    by_cases hit : mounted.mntsrc = srcOrDest ∨ mounted.mntpoint = srcOrDest
    · refine ⟨some fs, if_pos hit, fun other same => ?_⟩
      cases same
      exact List.mem_cons_self
    · exact ⟨found, (if_neg hit).trans reached, fun other same =>
        List.mem_cons_of_mem fs (inside other same)⟩

theorem fsDriverInUse_spec (driver : Nat) (list : List Nat)
    (live : ∀ fs ∈ list, ∃ mounted, filesystems fs = some mounted) :
    ∃ used, fsDriverInUse driver filesystems list = .ok used ∧
      (used = true ↔ ∃ fs ∈ list, ∃ mounted, filesystems fs = some mounted ∧
        mounted.driver = driver) := by
  induction list with
  | nil => exact ⟨false, rfl, by simp⟩
  | cons fs rest ih =>
    rcases live fs List.mem_cons_self with ⟨mounted, here⟩
    obtain ⟨used, reached, iff⟩ := ih fun other member => live other (List.mem_cons_of_mem fs member)
    unfold fsDriverInUse
    rw [Blocks.load_live here]
    by_cases same : mounted.driver = driver
    · exact ⟨true, if_pos same, by simp [here, same]⟩
    · exact ⟨used, (if_neg same).trans reached, by simp [here, same, iff]⟩

namespace Consistent

variable (consistent : vfs.Consistent drv)

include consistent

theorem distinct : vfs.registered.Nodup := consistent.names.of_map _

theorem live : ∀ fs ∈ vfs.filesystemsLl, ∃ mounted, vfs.filesystems fs = some mounted :=
  fun fs member => (consistent.listed.live fs).mp member

theorem freed (fs : Nat) :
    Consistent drv ⟨vfs.fsDrivers, vfs.filesystemsLl.erase fs,
      Function.update vfs.filesystems fs none⟩ where
  names := consistent.names
  listed := consistent.listed.erase fs
  driven := by
    intro other mounted live
    have different : other ≠ fs := by
      rintro rfl
      simp at live
    dsimp only at live
    rw [Function.update_of_ne different] at live
    exact consistent.driven other mounted live

theorem mounted (unused : vfs.filesystems fs = none) {new : MountedFs}
    (driven : new.driver ∈ vfs.registered) :
    Consistent drv ⟨vfs.fsDrivers, vfs.filesystemsLl ++ [fs],
      Function.update vfs.filesystems fs (some new)⟩ where
  names := consistent.names
  listed := consistent.listed.add unused new
  driven := by
    intro other mounted live
    dsimp only at live
    by_cases same : other = fs
    · subst same
      rw [Function.update_self] at live
      cases live
      exact driven
    · rw [Function.update_of_ne same] at live
      exact consistent.driven other mounted live

theorem undone (unused : vfs.filesystems fs = none) (new : MountedFs) :
    vfsFreeFs fs ⟨vfs.fsDrivers, vfs.filesystemsLl ++ [fs],
      Function.update vfs.filesystems fs (some new)⟩ = .ok vfs := by
  have listed := consistent.listed.add unused new
  have fresh : fs ∉ vfs.filesystemsLl := by
    intro member
    rcases consistent.live fs member with ⟨mounted, live⟩
    rw [unused] at live
    cases live
  rw [@vfsFreeFs_spec ⟨vfs.fsDrivers, vfs.filesystemsLl ++ [fs], Function.update vfs.filesystems fs _⟩
    fs new listed (Function.update_self fs _ _)]
  dsimp only
  rw [List.erase_append_right _ fresh, Function.update_idem, ← unused, Function.update_eq_self]
  simp

theorem probed (unused : vfs.filesystems fs = none) (init : Nat → MountedFs → Int)
    (type : Option (List Byte)) (new : MountedFs) :
    ∃ st vfs',
      (vfsMountLoop drv init type fs vfs.registered
        (Function.update vfs.filesystems fs (some new)) >>= fun (st, filesystems) =>
          if st < 0 then do
            let vfs ← vfsFreeFs fs ⟨vfs.fsDrivers, vfs.filesystemsLl ++ [fs], filesystems⟩
            pure (st, vfs)
          else pure (st, ⟨vfs.fsDrivers, vfs.filesystemsLl ++ [fs], filesystems⟩)) =
        .ok (st, vfs') ∧ vfs'.Consistent drv := by
  obtain ⟨st, mounted, reached, driven⟩ := @vfsMountLoop_spec drv _ _ _ init type vfs.registered
    (Function.update_self fs (some new) vfs.filesystems)
  rw [Function.update_idem] at reached
  rw [reached, Exec.ok_bind]
  dsimp only
  by_cases failed : st < 0
  · rw [if_pos failed, consistent.undone unused]
    exact ⟨st, vfs, rfl, consistent⟩
  · rw [if_neg failed]
    exact ⟨st, _, rfl, consistent.mounted unused (driven.resolve_right failed)⟩

theorem vfsMount (unused : vfs.filesystems fs = none) (node : Bool) (init : Nat → MountedFs → Int)
    (mount : MountArgs) (flags : BitVec 32) :
    ∃ st vfs', vfs.vfsMount drv fs node init mount flags = .ok (st, vfs') ∧ vfs'.Consistent drv := by
  unfold VfsDrivers.vfsMount
  rcases vfsNewFs_spec unused node mount with ⟨st, failed⟩ | ⟨new, made⟩
  · rw [failed]
    exact ⟨st, vfs, rfl, consistent⟩
  · rw [made]
    have live := Function.update_self fs (some new) vfs.filesystems
    simp only [Exec.ok_bind, Blocks.load_live live, Blocks.store_live live, Function.update_idem]
    have flagged := Function.update_self fs (some { new with flags := flags }) vfs.filesystems
    rcases mount.type with _ | ⟨⟨st⟩ | ⟨type⟩⟩
    · exact consistent.probed unused init none { new with flags := flags }
    · rw [consistent.undone unused]
      exact ⟨_, vfs, rfl, consistent⟩
    · exact consistent.probed unused init (some type) { new with flags := flags }

theorem vfsUnmount {destroy : Nat → MountedFs → Exec Unit} {srcOrDest : Option (List Byte)}
    {st : Int} {vfs' : VfsDrivers} (call : vfs.vfsUnmount destroy srcOrDest = .ok (st, vfs')) :
    vfs'.Consistent drv := by
  unfold VfsDrivers.vfsUnmount at call
  cases srcOrDest with
  | none =>
    cases call
    exact consistent
  | some srcOrDest =>
    obtain ⟨found, reached, inside⟩ :=
      vfsFindFsBySrcOrDest_spec srcOrDest vfs.filesystemsLl consistent.live
    simp only [reached, Exec.ok_bind] at call
    cases found with
    | none =>
      cases call
      exact consistent
    | some fs =>
      rcases consistent.live fs (inside fs rfl) with ⟨mounted, live⟩
      simp only [Blocks.load_live live, Exec.ok_bind] at call
      rcases Exec.bind_ok.mp call with ⟨-, -, call⟩
      rw [vfsFreeFs_spec consistent.listed live] at call
      cases call
      exact consistent.freed fs

theorem vfsRegisterFsDriver {mem : Bool} {st : Int} {vfs' : VfsDrivers}
    (call : vfs.vfsRegisterFsDriver drv mem driver = .ok (st, vfs')) : vfs'.Consistent drv := by
  unfold VfsDrivers.vfsRegisterFsDriver at call
  split at call
  · cases call
  · split at call
    · cases call
      exact consistent
    · rename_i unnamed
      split at call
      · cases call
        exact consistent
      · cases call
        have grown : VfsDrivers.registered ⟨vfs.fsDrivers.push driver, vfs.filesystemsLl,
            vfs.filesystems⟩ = vfs.registered ++ [driver] := vfs.fsDrivers.toList_push driver
        refine ⟨?_, consistent.listed, fun fs mounted live => ?_⟩
        · rw [grown, List.map_append, List.map_singleton, ← List.concat_eq_append]
          apply consistent.names.concat
          intro member
          rcases List.mem_map.mp member with ⟨other, registered, same⟩
          exact unnamed (List.any_eq_true.mpr ⟨other, registered, decide_eq_true same⟩)
        · rw [grown]
          exact List.mem_append_left _ (consistent.driven fs mounted live)

end Consistent

/-- A mounted file system is the driver's. -/
def Uses (vfs : VfsDrivers) (driver : Nat) : Prop :=
  ∃ fs ∈ vfs.filesystemsLl, ∃ mounted, vfs.filesystems fs = some mounted ∧ mounted.driver = driver

/-- A call that unregisters a driver takes this one out where no one uses it, and else does
    nothing. -/
theorem Consistent.vfsUnregisterFsDriver (consistent : vfs.Consistent drv) (driver : Nat) :
    ∃ st vfs', vfs.vfsUnregisterFsDriver driver = .ok (st, vfs') ∧
      (st = 0 ↔ driver ∈ vfs.registered ∧ ¬vfs.Uses driver) ∧
      (st = 0 → vfs'.registered = vfs.registered.filter (· ≠ driver) ∧
        vfs'.filesystemsLl = vfs.filesystemsLl ∧ vfs'.filesystems = vfs.filesystems) ∧
      (st ≠ 0 → vfs' = vfs) := by
  unfold VfsDrivers.vfsUnregisterFsDriver
  cases found : vfs.registered.findIdx? (· = driver) with
  | none =>
    have absent : driver ∉ vfs.registered := by
      intro member
      have missed := List.findIdx?_eq_none_iff.mp found driver member
      simp at missed
    exact ⟨-2, vfs, rfl, by simp [absent], nofun, fun _ => rfl⟩
  | some hit =>
    rcases List.findIdx?_eq_some_iff_getElem.mp found with ⟨inside, same, -⟩
    have same := of_decide_eq_true same
    have member : driver ∈ vfs.registered := same ▸ List.getElem_mem inside
    obtain ⟨used, checked, iff⟩ :=
      fsDriverInUse_spec driver vfs.filesystemsLl consistent.live
    simp only [checked, Exec.ok_bind]
    cases used with
    | true => exact ⟨-16, vfs, rfl, by simp [Uses, iff.mp rfl], nofun, fun _ => rfl⟩
    | false =>
      have unused : ¬vfs.Uses driver := fun uses => Bool.false_ne_true (iff.mpr uses)
      refine ⟨0, _, rfl, iff_of_true rfl ⟨member, unused⟩, fun _ => ⟨?_, rfl, rfl⟩, nofun⟩
      have within : hit < vfs.fsDrivers.count := by simpa [registered] using inside
      change GrownArray.toList _ = _
      rw [GrownArray.toList_closeGap within]
      change vfs.registered.eraseIdx hit = _
      rw [← consistent.distinct.erase_getElem hit inside, same,
        consistent.distinct.erase_eq_filter]
      apply List.filter_congr
      intro other member
      by_cases same : other = driver <;> simp [same]

theorem Consistent.unregistered {vfs' : VfsDrivers} (consistent : vfs.Consistent drv)
    (unused : ¬vfs.Uses driver) (left : vfs'.registered = vfs.registered.filter (· ≠ driver))
    (list : vfs'.filesystemsLl = vfs.filesystemsLl)
    (mounts : vfs'.filesystems = vfs.filesystems) : vfs'.Consistent drv where
  names := by
    rw [left]
    apply List.Sublist.nodup _ consistent.names
    apply List.Sublist.map
    exact List.filter_sublist
  listed := by
    rw [list, mounts]
    exact consistent.listed
  driven := by
    intro fs mounted live
    rw [mounts] at live
    rw [left, List.mem_filter, decide_eq_true_iff]
    refine ⟨consistent.driven fs mounted live, fun same => unused ?_⟩
    exact ⟨fs, (consistent.listed.live fs).mpr ⟨mounted, live⟩, mounted, live, same⟩

inductive VfsCall
  | register (driver : Nat)
  | unregister (driver : Nat)
  | mount (mount : MountArgs) (flags : BitVec 32)
  | unmount (srcOrDest : Option (List Byte))

variable (drv) in
/-- A call that comes back. Allocations and drivers answer anything; what `kcalloc` hands out is not
    in use. -/
inductive VfsStep : VfsDrivers → VfsCall → VfsDrivers → Prop
  | register {vfs vfs' : VfsDrivers} {driver : Nat} {mem : Bool} {st : Int}
      (call : vfs.vfsRegisterFsDriver drv mem driver = .ok (st, vfs')) :
      VfsStep vfs (.register driver) vfs'
  | unregister {vfs vfs' : VfsDrivers} {driver : Nat} {st : Int}
      (call : vfs.vfsUnregisterFsDriver driver = .ok (st, vfs')) :
      VfsStep vfs (.unregister driver) vfs'
  | mount {vfs vfs' : VfsDrivers} {mount : MountArgs} {flags : BitVec 32} {fs : Nat} {node : Bool}
      {init : Nat → MountedFs → Int} {st : Int} (unused : vfs.filesystems fs = none)
      (call : vfs.vfsMount drv fs node init mount flags = .ok (st, vfs')) :
      VfsStep vfs (.mount mount flags) vfs'
  | unmount {vfs vfs' : VfsDrivers} {srcOrDest : Option (List Byte)}
      {destroy : Nat → MountedFs → Exec Unit} {st : Int}
      (call : vfs.vfsUnmount destroy srcOrDest = .ok (st, vfs')) :
      VfsStep vfs (.unmount srcOrDest) vfs'

theorem VfsStep.consistent {vfs vfs' : VfsDrivers} {call : VfsCall} (step : VfsStep drv vfs call vfs')
    (consistent : vfs.Consistent drv) : vfs'.Consistent drv := by
  cases step with
  | register call => exact consistent.vfsRegisterFsDriver call
  | @unregister _ driver st call =>
    rcases consistent.vfsUnregisterFsDriver driver with ⟨st', after, done, iff, removed, kept⟩
    cases call.symm.trans done
    by_cases zero : st = 0
    · rcases removed zero with ⟨left, list, mounts⟩
      exact consistent.unregistered (iff.mp zero).2 left list mounts
    · rw [kept zero]
      exact consistent
  | mount unused call =>
    rcases consistent.vfsMount unused _ _ _ _ with ⟨st', after, done, after_consistent⟩
    cases call.symm.trans done
    exact after_consistent
  | unmount call => exact consistent.vfsUnmount call

theorem consistent_start : start.Consistent drv where
  names := .nil
  listed := ⟨.nil, by simp [start]⟩
  driven := nofun

theorem vfs_drivers_consistent {calls : List VfsCall} {vfs : VfsDrivers}
    (run : Run (VfsStep drv) start calls vfs) :
    (vfs.registered.map fun driver => (drv driver).name).Nodup ∧ vfs.registered.Nodup ∧
      (∀ fs ∈ vfs.filesystemsLl, ∃ mounted, vfs.filesystems fs = some mounted ∧
        mounted.driver ∈ vfs.registered) ∧
      ∀ driver, ∃ st vfs', vfs.vfsUnregisterFsDriver driver = .ok (st, vfs') ∧
        (st = 0 ↔ driver ∈ vfs.registered ∧ ¬vfs.Uses driver) ∧
        (st = 0 → vfs'.registered = vfs.registered.filter (· ≠ driver) ∧
          vfs'.filesystemsLl = vfs.filesystemsLl ∧ vfs'.filesystems = vfs.filesystems) ∧
        (st ≠ 0 → vfs' = vfs) := by
  have consistent := run.invariant (Consistent drv) (fun _ _ _ step => step.consistent)
    consistent_start
  refine ⟨consistent.names, consistent.distinct, fun fs member => ?_,
    consistent.vfsUnregisterFsDriver⟩
  rcases consistent.live fs member with ⟨mounted, live⟩
  exact ⟨mounted, live, consistent.driven fs mounted live⟩

/-- The driver at 64 is named "a" and may be probed, any other is named "b". -/
def twoDrivers (driver : Nat) : FsDriver :=
  if driver = 64 then ⟨[0x61], true⟩ else ⟨[0x62], false⟩

theorem vfs_drivers_consistent_two :
    ∃ vfs, Run (VfsStep twoDrivers) start [.register 64, .register 128,
        .mount ⟨.ok [0x78], .ok [0x2f], none, none⟩ 0, .unregister 128] vfs ∧
      vfs.registered = [64] ∧ vfs.Uses 64 ∧
      ∃ st vfs', vfs.vfsUnregisterFsDriver 64 = .ok (st, vfs') ∧ (st ≠ 0 → vfs' = vfs) := by
  have first := VfsStep.register
    (show start.vfsRegisterFsDriver twoDrivers true 64 = .ok (0, _) from rfl)
  have second := VfsStep.register
    (show VfsDrivers.vfsRegisterFsDriver twoDrivers true 128
      ⟨start.fsDrivers.push 64, [], fun _ => none⟩ = .ok (0, _) from rfl)
  have third := VfsStep.mount
    (show (fun _ => none : Blocks MountedFs) 8 = none from rfl)
    (show VfsDrivers.vfsMount twoDrivers 8 true (fun _ _ => 0) ⟨.ok [0x78], .ok [0x2f], none, none⟩ 0
      ⟨(start.fsDrivers.push 64).push 128, [], fun _ => none⟩ = .ok (0, _) from rfl)
  have mounted := ((Run.single first).snoc second).snoc third
  rcases (vfs_drivers_consistent mounted).2.2.2 128 with ⟨st, vfs, call, iff, removed, -⟩
  have zero : st = 0 := by
    refine iff.mpr ⟨by decide, ?_⟩
    rintro ⟨fs, member, held, live, same⟩
    cases List.mem_singleton.mp member
    cases live
    cases same
  rcases removed zero with ⟨left, list, mounts⟩
  have run := mounted.snoc (VfsStep.unregister call)
  refine ⟨vfs, run, left, ⟨8, by rw [list]; exact List.mem_cons_self, _, by rw [mounts]; rfl, rfl⟩, ?_⟩
  rcases (vfs_drivers_consistent run).2.2.2 64 with ⟨st, vfs', again, -, -, kept⟩
  exact ⟨st, vfs', again, kept⟩

end VfsDrivers

end Dxgmx
