import Dxgmx.Fs.OpenCreation
import Dxgmx.Fs.VnodeReferences

open Library

namespace Dxgmx

/-- The descriptors of the process, the descriptors of the table and the vnodes are as before. -/
structure OpenUndone (proc proc' : Process) (vfs vfs' : Vfs Mounts) : Prop where
  fds : ∀ i, proc'.fds.getD i false = proc.fds.getD i false
  fdt : ∀ fd pid, vfsFdtGetSysfd fd pid vfs'.fdt = vfsFdtGetSysfd fd pid vfs.fdt
  world : vfs'.world = vfs.world

/-- The descriptor number that is taken is not an `fd_t`, or the driver refuses a vnode after an old
    descriptor was overwritten. -/
structure OpenVnodeLeaks (answers : FileAnswers) (mem : OpenMem) (idx : Nat) (proc : Process)
    (fdt : SysFdHashtable) : Prop where
  picked : pickedFd mem.fds proc = some idx
  lost : 2 ^ 31 ≤ idx ∨ mem.sysfd.sysfd = true ∧ answers.opsOpen < 0 ∧
    (vfsFdtGetSysfd (BitVec.ofNat 32 idx) proc.pid fdt).isSome

def OpenLeaks (answers : FileAnswers) (mem : OpenMem) (proc : Process) (vfs : Vfs Mounts) : Prop :=
  (∃ path fs vnode, answers.path = .ok path ∧ Absolute path ∧
    vfsTopmostFsForPath path vfs.world.filesystems = .ok fs ∧
    fsLookupVnode path fs = .ok (.ok vnode)) ∧
  ∃ idx, OpenVnodeLeaks answers mem idx proc vfs.fdt

variable {answers : FileAnswers} {mem : OpenMem} {flags mode : BitVec 32} {proc proc' : Process}
  {vfs vfs' : Vfs Mounts} {st : Int} {fdt fdt' : SysFdHashtable} {procfd : Fd} {pid : Pid}

theorem openUndone_refl (proc : Process) (vfs : Vfs Mounts) : OpenUndone proc proc vfs vfs :=
  ⟨fun _ => rfl, fun _ _ => rfl, rfl⟩

/-- A descriptor that stands in the table already is overwritten, for which the table needs no
    memory. -/
theorem vfsFdtNewSysfd_over (wf : FdtWellFormed fdt) {mem : SysfdMem} (node : mem.sysfd = true)
    (there : (vfsFdtGetSysfd procfd pid fdt).isSome) :
    ∃ sysfd fdt', vfsFdtNewSysfd mem procfd pid fdt = (some sysfd, fdt') := by
  obtain ⟨old, found⟩ := Option.isSome_iff_exists.mp there
  obtain ⟨idx, entry, place, inside, -⟩ := HashTable.find_ok.mp (vfsFdtGetSysfd_some.mp found)
  have added (slot : HashTableSlot FileDescriptor) (key : BitVec 64) (value : FileDescriptor)
      (held : HashTable.findEntry key slot = some entry) :
      ∃ slot', HashTable.addValueToSlot mem.slot key value slot = some slot' := by
    induction slot with
    | nil => cases held
    | cons first rest ih =>
      rw [HashTable.findEntry_cons] at held
      rw [HashTable.addValueToSlot]
      split
      · exact ⟨_, rfl⟩
      · rename_i other
        rw [if_neg other] at held
        obtain ⟨slot', more⟩ := ih held
        exact ⟨_, by rw [more]; rfl⟩
  obtain ⟨slot', grown⟩ := added _ _ ⟨procfd, pid, 0, 0, 0⟩ inside
  unfold vfsFdtNewSysfd HashTable.insert
  rw [node, HashTable.maybeEnlarge_wellFormed wf.table]
  dsimp only
  rw [if_neg (by decide), place]
  dsimp only
  rw [grown]
  exact ⟨_, _, rfl⟩

theorem freeFd_undone {idx : Nat} (short : idx < 2 ^ 32) (free : proc.fds.getD idx false = false)
    (marked : ∀ i, proc'.fds.getD i false = if i = idx then true else proc.fds.getD i false)
    (i : Nat) : (procFreeFd (BitVec.ofNat 32 idx) proc').fds.getD i false = proc.fds.getD i false := by
  have small : (BitVec.ofNat 32 idx).toNat = idx := by
    rw [BitVec.toNat_ofNat]
    exact Nat.mod_eq_of_lt short
  rw [procFreeFd_fds, small, marked]
  by_cases here : i = idx
  · rw [if_pos here, here, free]
  · rw [if_neg here, if_neg here]

theorem toInt_ofNat_neg {idx : Nat} (short : idx < 2 ^ 32) :
    (BitVec.ofNat 32 idx).toInt < 0 ↔ 2 ^ 31 ≤ idx := by
  rw [BitVec.toInt_eq_toNat_cond, BitVec.toNat_ofNat, Nat.mod_eq_of_lt short]
  split <;> omega

/-- What a failed `vfs_open` of a vnode does where it leaks. -/
theorem vfsOpenVnode_leaks (fits : proc.Fits) (wf : FdtWellFormed vfs.fdt) {idx : Nat}
    (leaks : OpenVnodeLeaks answers mem idx proc vfs.fdt) (addr : VirtualNodeRef) :
    ∃ st proc' vfs', vfsOpenVnode (mountedFileSystems answers) mem addr flags proc vfs =
      (st, proc', vfs') ∧ st < 0 ∧ ¬ OpenUndone proc proc' vfs vfs' := by
  obtain ⟨picked, lost⟩ := leaks
  unfold vfsOpenVnode
  generalize numbered : procNewFd mem.fds proc = result
  obtain ⟨procfd, taken⟩ := result
  obtain ⟨named, -, ⟨none, -, -⟩ | ⟨found, same, rfl, short, free, marked⟩⟩ :=
    procNewFd_cases fits numbered
  · rw [picked] at none
    cases none
  · rw [picked] at same
    cases same
    have sign := toInt_ofNat_neg short
    dsimp only
    by_cases beyond : 2 ^ 31 ≤ idx
    · rw [if_pos (sign.mpr beyond)]
      refine ⟨_, _, _, rfl, sign.mpr beyond, fun undone => ?_⟩
      have flag := undone.fds idx
      rw [marked, if_pos rfl, free] at flag
      cases flag
    · obtain ⟨node, refused, there⟩ := lost.resolve_left beyond
      obtain ⟨sysfd, fdt, made⟩ := vfsFdtNewSysfd_over wf node there
      rw [if_neg (fun negative => beyond (sign.mp negative)), BitVec.ofInt_toInt, named, made]
      show ∃ st proc' vfs', (if answers.opsOpen < 0 then _ else _) = (st, proc', vfs') ∧ _
      rw [if_pos refused]
      refine ⟨_, _, _, rfl, refused, fun undone => ?_⟩
      obtain ⟨old, before⟩ := Option.isSome_iff_exists.mp there
      have after := undone.fdt (BitVec.ofNat 32 idx) proc.pid
      rw [before] at after
      exact ((freeSysfd_newSysfd wf made _ _ old).mp after).1 ⟨rfl, rfl⟩

/-- Otherwise what was taken is given back. -/
theorem vfsOpenVnode_undone (fits : proc.Fits) (wf : FdtWellFormed vfs.fdt)
    (none : ∀ idx, ¬ OpenVnodeLeaks answers mem idx proc vfs.fdt) {addr : VirtualNodeRef}
    (h : vfsOpenVnode (mountedFileSystems answers) mem addr flags proc vfs = (st, proc', vfs'))
    (failed : st < 0) : OpenUndone proc proc' vfs vfs' := by
  unfold vfsOpenVnode at h
  generalize numbered : procNewFd mem.fds proc = result at h
  obtain ⟨procfd, taken⟩ := result
  obtain ⟨named, -, ⟨-, negative, same⟩ | ⟨idx, picked, rfl, short, free, marked⟩⟩ :=
    procNewFd_cases fits numbered
  · dsimp only at h
    rw [if_pos negative] at h
    cases h
    exact ⟨fun i => by rw [same], fun _ _ => rfl, rfl⟩
  · have sign := toInt_ofNat_neg short
    have small : ¬ 2 ^ 31 ≤ idx := fun beyond => none idx ⟨picked, .inl beyond⟩
    dsimp only at h
    rw [if_neg (fun negative => small (sign.mp negative)), BitVec.ofInt_toInt, named] at h
    cases made : vfsFdtNewSysfd mem.sysfd (BitVec.ofNat 32 idx) proc.pid vfs.fdt with
    | mk sysfd fdt =>
      rw [made] at h
      cases sysfd with
      | none =>
        cases h
        refine ⟨freeFd_undone short free marked, fun fd pid => ?_, rfl⟩
        rw [vfsFdtNewSysfd_none wf made]
      | some sysfd =>
        change (if answers.opsOpen < 0 then _ else _) = _ at h
        split at h
        · rename_i refused
          cases h
          refine ⟨freeFd_undone short free marked, fun fd pid => ?_, rfl⟩
          have node : mem.sysfd.sysfd = true := by
            unfold vfsFdtNewSysfd at made
            by_contra off
            rw [Bool.not_eq_true] at off
            rw [if_pos off] at made
            cases made
          have absent : vfsFdtGetSysfd (BitVec.ofNat 32 idx) proc.pid vfs.fdt = Option.none := by
            by_contra there
            exact none idx ⟨picked, .inr ⟨node, refused, Option.isSome_iff_ne_none.mpr there⟩⟩
          apply Option.ext
          intro found
          rw [freeSysfd_newSysfd wf made fd pid found, and_iff_right_iff_imp]
          rintro there ⟨rfl, rfl⟩
          rw [absent] at there
          cases there
        · cases h
          exact absurd (sign.mp failed) small

/-- `vfs_open` without `O_CREAT` undoes what it did before an error exactly where it takes an
    `fd_t`, and the driver does not refuse the vnode after an old descriptor was overwritten. -/
theorem openUndone_iff (answers : FileAnswers) (mem : OpenMem) (flags mode : BitVec 32)
    (proc : Process) (vfs : Vfs Mounts) (noCreat : flags &&& 0x8 = 0) (fits : proc.Fits)
    (wf : FdtWellFormed vfs.fdt) :
    (∀ st proc' vfs', mountedOpen answers mem flags mode proc vfs = .ok (st, proc', vfs') → st < 0 →
      OpenUndone proc proc' vfs vfs') ↔ ¬ OpenLeaks answers mem proc vfs := by
  constructor
  · rintro undone ⟨⟨path, fs, vnode, copied, absolute, owner, found⟩, idx, leaks⟩
    obtain ⟨st, proc', vfs', opened, failed, leaked⟩ :=
      @vfsOpenVnode_leaks answers mem flags proc vfs fits wf idx leaks vnode.addr
    have called := @mountedOpen_found fs path answers mem flags mode proc vfs copied absolute owner
      vnode found
    rw [opened] at called
    exact leaked (undone st proc' vfs' called failed)
  · intro none st proc' vfs' called failed
    rcases mountedOpen_cases called with ⟨-, rfl, rfl⟩ | ⟨path, fs, copied, absolute, owner, ends⟩
    · exact openUndone_refl proc' vfs'
    rcases ends with ⟨vnode, found, opened⟩ | ⟨-, -, rfl, rfl⟩ | ⟨-, creat⟩
    · refine vfsOpenVnode_undone fits wf (fun idx leaks => ?_) opened failed
      exact none ⟨⟨path, fs, vnode, copied, absolute, owner, found⟩, idx, leaks⟩
    · exact openUndone_refl proc' vfs'
    · exact absurd noCreat creat

def onEmptyTable : Vfs Mounts := { onRootRamfs with fdt := HashTable.init sha1OfKeys }

/-- The driver of `/` refuses a process that has no descriptor. -/
theorem openUndone_refused : ∃ proc' vfs',
    mountedOpen ⟨.ok [slash], ⟨true, true⟩, -1, 0⟩ ⟨true, ⟨true, true, true⟩⟩ 0x1 0 rootProcess
      onEmptyTable = .ok (-1, proc', vfs') ∧ OpenUndone rootProcess proc' onEmptyTable vfs' := by
  have kept : ¬ OpenLeaks ⟨.ok [slash], ⟨true, true⟩, -1, 0⟩ ⟨true, ⟨true, true, true⟩⟩ rootProcess
      onEmptyTable := by
    rintro ⟨-, idx, picked, lost⟩
    have zero : pickedFd true rootProcess = some 0 := by decide
    cases zero.symm.trans picked
    rcases lost with beyond | ⟨-, -, there⟩
    · exact absurd beyond (by decide)
    · change (vfsFdtGetSysfd _ _ (HashTable.init _)).isSome at there
      rw [vfsFdtGetSysfd_init] at there
      cases there
  have undone := (openUndone_iff ⟨.ok [slash], ⟨true, true⟩, -1, 0⟩ ⟨true, ⟨true, true, true⟩⟩ 0x1 0
    rootProcess onEmptyTable rfl ⟨by decide, by decide⟩ (fdtWellFormed_init _)).mpr kept
  have called : (mountedOpen ⟨.ok [slash], ⟨true, true⟩, -1, 0⟩ ⟨true, ⟨true, true, true⟩⟩ 0x1 0
      rootProcess onEmptyTable).map Prod.fst = .ok (-1) := by
    decide
  cases result : mountedOpen ⟨.ok [slash], ⟨true, true⟩, -1, 0⟩ ⟨true, ⟨true, true, true⟩⟩ 0x1 0
      rootProcess onEmptyTable with
  | error stop =>
    rw [result] at called
    cases called
  | ok after =>
    obtain ⟨st, proc', vfs'⟩ := after
    rw [result] at called
    have refused : st = -1 := Except.ok.inj called
    subst refused
    exact ⟨proc', vfs', rfl, undone (-1) proc' vfs' result (by decide)⟩

/-- The table still holds descriptor 0 of the process that had the pid before. -/
def afterReusedPid : Vfs Mounts :=
  { onRootRamfs with
    fdt := (vfsFdtNewSysfd ⟨true, true, true⟩ 0 1 (HashTable.init sha1OfKeys)).2 }

/-- The driver of `/` refuses the process, and the old descriptor is gone. -/
theorem not_openUndone_reusedPid :
    vfsFdtGetSysfd 0 rootProcess.pid afterReusedPid.fdt = some ⟨0, 1, 0, 0, 0⟩ ∧
      ¬ ∀ st proc' vfs', mountedOpen ⟨.ok [slash], ⟨true, true⟩, -1, 0⟩ ⟨true, ⟨true, true, true⟩⟩ 0x1 0
        rootProcess afterReusedPid = .ok (st, proc', vfs') → st < 0 →
      OpenUndone rootProcess proc' afterReusedPid vfs' := by
  have before : vfsFdtGetSysfd 0 rootProcess.pid afterReusedPid.fdt = some ⟨0, 1, 0, 0, 0⟩ := by
    decide
  refine ⟨before, fun undone => ?_⟩
  have called : (mountedOpen ⟨.ok [slash], ⟨true, true⟩, -1, 0⟩ ⟨true, ⟨true, true, true⟩⟩ 0x1 0
      rootProcess afterReusedPid).map (fun result =>
        (result.1, vfsFdtGetSysfd 0 rootProcess.pid result.2.2.fdt)) = .ok (-1, none) := by
    decide
  cases result : mountedOpen ⟨.ok [slash], ⟨true, true⟩, -1, 0⟩ ⟨true, ⟨true, true, true⟩⟩ 0x1 0
      rootProcess afterReusedPid with
  | error stop =>
    rw [result] at called
    cases called
  | ok after =>
    obtain ⟨st, proc', vfs'⟩ := after
    rw [result] at called
    obtain ⟨status, gone⟩ := Prod.mk.inj (Except.ok.inj called)
    have same := (undone st proc' vfs' result (by rw [show st = -1 from status]; decide)).fdt 0
      rootProcess.pid
    rw [before] at same
    cases gone.symm.trans same

end Dxgmx
