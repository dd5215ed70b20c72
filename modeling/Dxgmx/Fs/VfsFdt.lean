import Dxgmx.Utils.Hashtable

namespace Dxgmx

/-- `fd_t` and `pid_t` are `int`. -/
abbrev Fd := BitVec 32

abbrev Pid := BitVec 32

/-- A vnode is known by its address. -/
abbrev VirtualNodeRef := Nat

structure FileDescriptor where
  fd : Fd
  pid : Pid
  flags : BitVec 32
  off : BitVec 32
  vnode : VirtualNodeRef
  deriving DecidableEq

/-- `g_sys_fd_hashtable`. A value is a pointer to a descriptor that nothing else points to, so the
    descriptor itself stands in the table. -/
abbrev SysFdHashtable := HashTable FileDescriptor

def vfsFdtComboToHashkey (procfd : Fd) (pid : Pid) : BitVec 64 :=
  (procfd.signExtend 64 <<< 32) ||| pid.setWidth 64

/-- The answers of the allocator to `vfs_fdt_new_sysfd`. -/
structure SysfdMem where
  sysfd : Bool
  table : Bool
  slot : Bool

def vfsFdtNewSysfd (mem : SysfdMem) (procfd : Fd) (pid : Pid) (fdt : SysFdHashtable) :
    Option FileDescriptor × SysFdHashtable :=
  let sysfd : FileDescriptor := ⟨procfd, pid, 0, 0, 0⟩
  if mem.sysfd = false then (none, fdt)
  else
    match fdt.insert mem.table mem.slot (vfsFdtComboToHashkey procfd pid) sysfd with
    | (.error _, fdt) => (none, fdt)
    | (.ok (), fdt) => (some sysfd, fdt)

def vfsFdtGetSysfd (procfd : Fd) (pid : Pid) (fdt : SysFdHashtable) : Option FileDescriptor :=
  match fdt.find (vfsFdtComboToHashkey procfd pid) with
  | .error _ => none
  | .ok sysfd => some sysfd

def vfsFdtFreeSysfd (sysfd : FileDescriptor) (fdt : SysFdHashtable) : SysFdHashtable :=
  match fdt.remove (vfsFdtComboToHashkey sysfd.fd sysfd.pid) with
  | .error _ => fdt
  | .ok fdt => fdt

/-- A store to the fields of a descriptor that the table holds. -/
def vfsFdtStore (sysfd : FileDescriptor) (fdt : SysFdHashtable) : SysFdHashtable :=
  fdt.update (vfsFdtComboToHashkey sysfd.fd sysfd.pid) sysfd

/-- SHA-1 of the keys of fd 0 of the first processes and of fd 1 of process 1. -/
def sha1OfKeys (key : BitVec 64) : Except Int (List (BitVec 32)) :=
  if key = 0 then .ok [0x5740fe05, 0x126f1653, 0xc9e75955, 0x548655ac, 0xe9c707f1]
  else if key = 1 then .ok [0xe29ea83d, 0x4313be73, 0x76cf7e7e, 0x4dbd3f0f, 0xfed1e8c0]
  else if key = 2 then .ok [0x544baab0, 0xca5c329f, 0x6cfa9d9c, 0x7260bde1, 0x71acaeae]
  else .ok [0xd5c2e100, 0xfb02be6f, 0xe746ac8e, 0xfc643969, 0x50a80151]

theorem vfsFdtComboToHashkey_append (procfd : Fd) (pid : Pid) :
    vfsFdtComboToHashkey procfd pid = procfd ++ pid := by
  apply BitVec.eq_of_getLsbD_eq
  intro i inside
  unfold vfsFdtComboToHashkey
  rw [BitVec.getLsbD_or, BitVec.getLsbD_shiftLeft, BitVec.getLsbD_setWidth, BitVec.getLsbD_append]
  by_cases low : i < 32
  · simp [low, inside]
  · rw [BitVec.getLsbD_signExtend]
    have high : i - 32 < 32 := by omega
    have small : i - 32 < 64 := by omega
    have above := BitVec.getLsbD_of_ge pid i (by omega)
    simp [low, high, small, inside, above]

theorem vfsFdtComboToHashkey_inj {procfd procfd' : Fd} {pid pid' : Pid} :
    vfsFdtComboToHashkey procfd pid = vfsFdtComboToHashkey procfd' pid' ↔
      procfd = procfd' ∧ pid = pid' := by
  rw [vfsFdtComboToHashkey_append, vfsFdtComboToHashkey_append]
  constructor
  · intro same
    have value (high : Fd) (low : Pid) : (high ++ low).toNat = high.toNat * 2 ^ 32 + low.toNat := by
      rw [BitVec.toNat_append, ← Nat.shiftLeft_add_eq_or_of_lt low.isLt, Nat.shiftLeft_eq]
    have same := congrArg BitVec.toNat same
    rw [value, value] at same
    exact ⟨BitVec.eq_of_toNat_eq (by omega), BitVec.eq_of_toNat_eq (by omega)⟩
  · rintro ⟨rfl, rfl⟩
    rfl

/-- A table whose descriptors say under which key they stand. -/
structure FdtWellFormed (fdt : SysFdHashtable) : Prop where
  table : fdt.WellFormed
  named : ∀ procfd pid sysfd, vfsFdtGetSysfd procfd pid fdt = some sysfd →
    sysfd.fd = procfd ∧ sysfd.pid = pid

theorem vfsFdtGetSysfd_some {procfd : Fd} {pid : Pid} {fdt : SysFdHashtable}
    {sysfd : FileDescriptor} :
    vfsFdtGetSysfd procfd pid fdt = some sysfd ↔
      fdt.find (vfsFdtComboToHashkey procfd pid) = .ok sysfd := by
  unfold vfsFdtGetSysfd
  split
  · rename_i lost
    simp [lost]
  · rename_i found
    simp [found]

variable {fdt fdt' : SysFdHashtable} {procfd : Fd} {pid : Pid}

theorem vfsFdtNewSysfd_none (wf : FdtWellFormed fdt) {mem : SysfdMem}
    (h : vfsFdtNewSysfd mem procfd pid fdt = (none, fdt')) : fdt' = fdt := by
  unfold vfsFdtNewSysfd at h
  dsimp only at h
  split at h
  · cases h
    rfl
  · split at h
    · rename_i failed
      cases h
      exact HashTable.insert_error wf.table failed
    · cases h

theorem vfsFdtNewSysfd_insert {mem : SysfdMem} {sysfd : FileDescriptor}
    (h : vfsFdtNewSysfd mem procfd pid fdt = (some sysfd, fdt')) :
    sysfd = ⟨procfd, pid, 0, 0, 0⟩ ∧
      fdt.insert mem.table mem.slot (vfsFdtComboToHashkey procfd pid) sysfd = (.ok (), fdt') := by
  unfold vfsFdtNewSysfd at h
  dsimp only at h
  split at h
  · cases h
  · split at h
    · cases h
    · rename_i inserted
      cases h
      exact ⟨rfl, inserted⟩

/-- A new descriptor is found under its key, whatever was there before. -/
theorem vfsFdtNewSysfd_get (wf : FdtWellFormed fdt) {mem : SysfdMem} {sysfd : FileDescriptor}
    (h : vfsFdtNewSysfd mem procfd pid fdt = (some sysfd, fdt')) (other : Fd) (owner : Pid)
    (found : FileDescriptor) :
    vfsFdtGetSysfd other owner fdt' = some found ↔
      if other = procfd ∧ owner = pid then found = sysfd
      else vfsFdtGetSysfd other owner fdt = some found := by
  rw [vfsFdtGetSysfd_some, HashTable.find_insert wf.table (vfsFdtNewSysfd_insert h).2]
  simp only [vfsFdtComboToHashkey_inj, vfsFdtGetSysfd_some]

theorem FdtWellFormed.newSysfd (wf : FdtWellFormed fdt) {mem : SysfdMem} {sysfd : FileDescriptor}
    (h : vfsFdtNewSysfd mem procfd pid fdt = (some sysfd, fdt')) : FdtWellFormed fdt' where
  table := wf.table.insert (vfsFdtNewSysfd_insert h).2
  named := by
    intro other owner found there
    rw [vfsFdtNewSysfd_get wf h] at there
    split at there
    · rename_i same
      rw [there, (vfsFdtNewSysfd_insert h).1, same.1, same.2]
      exact ⟨rfl, rfl⟩
    · exact wf.named other owner found there

theorem vfsFdtFreeSysfd_get (wf : FdtWellFormed fdt) (sysfd : FileDescriptor) (other : Fd)
    (owner : Pid) (found : FileDescriptor) :
    vfsFdtGetSysfd other owner (vfsFdtFreeSysfd sysfd fdt) = some found ↔
      ¬ (other = sysfd.fd ∧ owner = sysfd.pid) ∧ vfsFdtGetSysfd other owner fdt = some found := by
  rw [vfsFdtGetSysfd_some, vfsFdtGetSysfd_some, ← vfsFdtComboToHashkey_inj]
  unfold vfsFdtFreeSysfd
  split
  · rename_i absent
    constructor
    · intro there
      refine ⟨fun same => ?_, there⟩
      rw [same] at there
      exact HashTable.find_of_remove_error absent _ there
    · exact fun there => there.2
  · rename_i removed
    exact HashTable.find_remove wf.table removed _ _

theorem FdtWellFormed.freeSysfd (wf : FdtWellFormed fdt) (sysfd : FileDescriptor) :
    FdtWellFormed (vfsFdtFreeSysfd sysfd fdt) where
  table := by
    unfold vfsFdtFreeSysfd
    split
    · exact wf.table
    · rename_i removed
      exact wf.table.remove removed
  named := by
    intro other owner found there
    rw [vfsFdtFreeSysfd_get wf] at there
    exact wf.named other owner found there.2

/-- A store to a descriptor changes what it holds, not where descriptors are found. -/
theorem vfsFdtStore_get (wf : FdtWellFormed fdt) (sysfd : FileDescriptor) (other : Fd)
    (owner : Pid) (found : FileDescriptor) :
    vfsFdtGetSysfd other owner (vfsFdtStore sysfd fdt) = some found ↔
      if other = sysfd.fd ∧ owner = sysfd.pid then
        found = sysfd ∧ ∃ old, vfsFdtGetSysfd sysfd.fd sysfd.pid fdt = some old
      else vfsFdtGetSysfd other owner fdt = some found := by
  rw [vfsFdtGetSysfd_some]
  unfold vfsFdtStore
  rw [HashTable.find_update wf.table]
  simp only [vfsFdtComboToHashkey_inj, vfsFdtGetSysfd_some]

theorem vfsFdtStore_isSome (wf : FdtWellFormed fdt) (sysfd : FileDescriptor) (other : Fd)
    (owner : Pid) :
    (vfsFdtGetSysfd other owner (vfsFdtStore sysfd fdt)).isSome =
      (vfsFdtGetSysfd other owner fdt).isSome := by
  rw [Bool.eq_iff_iff, Option.isSome_iff_exists, Option.isSome_iff_exists]
  simp only [vfsFdtStore_get wf]
  split
  · rename_i same
    rw [same.1, same.2]
    simp
  · rfl

theorem FdtWellFormed.store (wf : FdtWellFormed fdt) (sysfd : FileDescriptor) :
    FdtWellFormed (vfsFdtStore sysfd fdt) where
  table := wf.table.update _ _
  named := by
    intro other owner found there
    rw [vfsFdtStore_get wf] at there
    split at there
    · rename_i same
      rw [there.1, same.1, same.2]
      exact ⟨rfl, rfl⟩
    · exact wf.named other owner found there

theorem vfsFdtGetSysfd_init (chew : BitVec 64 → Except Int (List (BitVec 32))) (procfd : Fd)
    (pid : Pid) : vfsFdtGetSysfd procfd pid (HashTable.init chew) = none := by
  rw [Option.eq_none_iff_forall_ne_some]
  intro sysfd there
  obtain ⟨idx, entry, -, inside, -⟩ := HashTable.find_ok.mp (vfsFdtGetSysfd_some.mp there)
  rw [HashTable.init_slot] at inside
  cases inside

theorem fdtWellFormed_init (chew : BitVec 64 → Except Int (List (BitVec 32))) :
    FdtWellFormed (HashTable.init chew) where
  table := HashTable.wellFormed_init chew
  named := by
    intro other owner found there
    rw [vfsFdtGetSysfd_init] at there
    cases there

end Dxgmx
