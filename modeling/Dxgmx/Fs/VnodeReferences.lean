import Dxgmx.Fs.FileCreation
import Dxgmx.Fs.VnodeCounts
import Mathlib.Data.Set.Card
import Mathlib.Data.Set.Finite.Basic

open Library

namespace Dxgmx

/-- The descriptors that refer to a vnode. -/
def openDescriptors (fdt : SysFdHashtable) (addr : VirtualNodeRef) : Set (Fd × Pid) :=
  { key | ∃ sysfd, vfsFdtGetSysfd key.1 key.2 fdt = some sysfd ∧ sysfd.vnode = addr }

instance finite_bitVec {w : Nat} : Finite (BitVec w) :=
  Finite.of_injective BitVec.toFin fun _ _ => BitVec.eq_of_toFin_eq

theorem openDescriptors_ncard_pos {fdt : SysFdHashtable} {fd : Fd} {pid : Pid}
    {sysfd : FileDescriptor} (found : vfsFdtGetSysfd fd pid fdt = some sysfd) :
    0 < (openDescriptors fdt sysfd.vnode).ncard :=
  (Set.ncard_pos (Set.toFinite _)).mpr ⟨(fd, pid), sysfd, found, rfl⟩

/-- The processes and the file systems they share. -/
structure Session where
  vfs : Vfs Mounts
  procs : Pid → Process

inductive FileCall
  | openFile (pid : Pid) (answers : FileAnswers) (mem : OpenMem) (flags mode : BitVec 32)
  | close (pid : Pid) (answers : FileAnswers) (fd : Fd)
  | rmfile (path : Except Errno (List Byte))

def Session.call (s : Session) : FileCall → Exec (Int × Session)
  | .openFile pid answers mem flags mode => do
    let (st, proc, vfs) ← mountedOpen answers mem flags mode (s.procs pid) s.vfs
    pure (st, ⟨vfs, Function.update s.procs pid proc⟩)
  | .close pid answers fd => do
    let (st, proc, vfs) ← mountedClose answers fd (s.procs pid) s.vfs
    pure (st, ⟨vfs, Function.update s.procs pid proc⟩)
  | .rmfile path => do
    let (st, world) ← mountedRmfile path s.vfs.world
    pure (st, { s with vfs := { s.vfs with world := world } })

/-- A call that comes back. -/
def FileStep (s : Session) (call : FileCall) (s' : Session) : Prop :=
  ∃ st, s.call call = .ok (st, s')

/-- Every descriptor in the table is marked in its process. -/
structure Descriptors (fdt : SysFdHashtable) (procs : Pid → Process) : Prop where
  wellFormed : FdtWellFormed fdt
  pids : ∀ pid, (procs pid).pid = pid
  fits : ∀ pid, (procs pid).Fits
  flagged : ∀ fd pid sysfd, vfsFdtGetSysfd fd pid fdt = some sysfd →
    (procs pid).fds.getD fd.toNat false = true

/-- The counts are those of the descriptors. -/
structure Session.Counted (s : Session) : Prop where
  descriptors : Descriptors s.vfs.fdt s.procs
  counts : s.vfs.world.Counts fun addr => (openDescriptors s.vfs.fdt addr).ncard
  due : s.vfs.world.NoneDue

variable {fdt fdt' : SysFdHashtable} {procs : Pid → Process}

theorem Descriptors.setProc (desc : Descriptors fdt procs) {pid : Pid} {proc : Process}
    (named : proc.pid = pid) (fits : proc.Fits)
    (kept : ∀ i, (procs pid).fds.getD i false = true → proc.fds.getD i false = true) :
    Descriptors fdt (Function.update procs pid proc) := by
  constructor
  · exact desc.wellFormed
  · intro other
    by_cases here : other = pid
    · rw [here, Function.update_self]
      exact named
    · rw [Function.update_of_ne here]
      exact desc.pids other
  · intro other
    by_cases here : other = pid
    · rw [here, Function.update_self]
      exact fits
    · rw [Function.update_of_ne here]
      exact desc.fits other
  · intro fd other sysfd found
    have flag := desc.flagged fd other sysfd found
    by_cases here : other = pid
    · rw [here] at flag
      rw [here, Function.update_self]
      exact kept _ flag
    · rw [Function.update_of_ne here]
      exact flag

/-- Where a descriptor is found after an open: what is new is found under the new key. -/
def Added (fdt fdt' : SysFdHashtable) (key : Fd × Pid) (sysfd : FileDescriptor) : Prop :=
  vfsFdtGetSysfd key.1 key.2 fdt = none ∧ ∀ fd pid found,
    vfsFdtGetSysfd fd pid fdt' = some found ↔
      if fd = key.1 ∧ pid = key.2 then found = sysfd else vfsFdtGetSysfd fd pid fdt = some found

/-- Where a descriptor is found after a close. -/
def Taken (fdt fdt' : SysFdHashtable) (key : Fd × Pid) : Prop :=
  ∀ fd pid found, vfsFdtGetSysfd fd pid fdt' = some found ↔
    ¬ (fd = key.1 ∧ pid = key.2) ∧ vfsFdtGetSysfd fd pid fdt = some found

theorem openDescriptors_of_added {key : Fd × Pid} {sysfd : FileDescriptor}
    (added : Added fdt fdt' key sysfd) (addr : VirtualNodeRef) :
    openDescriptors fdt' addr = if addr = sysfd.vnode then insert key (openDescriptors fdt addr)
      else openDescriptors fdt addr := by
  obtain ⟨absent, found⟩ := added
  ext ⟨fd, pid⟩
  by_cases here : fd = key.1 ∧ pid = key.2
  · have same : (fd, pid) = key := Prod.ext here.1 here.2
    have outside : (fd, pid) ∉ openDescriptors fdt addr := by
      rintro ⟨old, there, -⟩
      rw [same, absent] at there
      cases there
    by_cases named : addr = sysfd.vnode
    · rw [if_pos named]
      refine ⟨fun _ => .inl same, fun _ => ⟨sysfd, ?_, named.symm⟩⟩
      rw [found, if_pos here]
    · rw [if_neg named]
      refine ⟨?_, fun inside => absurd inside outside⟩
      rintro ⟨other, there, refers⟩
      rw [found, if_pos here] at there
      rw [there] at refers
      exact absurd refers.symm named
  · have same : (fd, pid) ∈ openDescriptors fdt' addr ↔
        (fd, pid) ∈ openDescriptors fdt addr := by
      apply exists_congr
      intro old
      rw [found, if_neg here]
    rw [same]
    split
    · refine ⟨.inr, fun inside => inside.resolve_left fun equal => here ?_⟩
      rw [← equal]
      exact ⟨rfl, rfl⟩
    · rfl

theorem openDescriptors_of_taken {key : Fd × Pid} (taken : Taken fdt fdt' key)
    (addr : VirtualNodeRef) : openDescriptors fdt' addr = openDescriptors fdt addr \ {key} := by
  ext ⟨fd, pid⟩
  constructor
  · rintro ⟨sysfd, found, refers⟩
    obtain ⟨other, found⟩ := (taken fd pid sysfd).mp found
    refine ⟨⟨sysfd, found, refers⟩, fun same => other ?_⟩
    rw [← Set.mem_singleton_iff.mp same]
    exact ⟨rfl, rfl⟩
  · rintro ⟨⟨sysfd, found, refers⟩, other⟩
    refine ⟨sysfd, (taken fd pid sysfd).mpr ⟨fun same => other ?_, found⟩, refers⟩
    exact Prod.ext same.1 same.2

theorem openDescriptors_of_absent {key : Fd × Pid} (taken : Taken fdt fdt' key)
    (absent : vfsFdtGetSysfd key.1 key.2 fdt = none) (addr : VirtualNodeRef) :
    openDescriptors fdt' addr = openDescriptors fdt addr := by
  rw [openDescriptors_of_taken taken]
  apply Set.sdiff_singleton_eq_self
  rintro ⟨sysfd, found, -⟩
  rw [absent] at found
  cases found

theorem newSysfd_added (wf : FdtWellFormed fdt) {fd : Fd} {pid : Pid} {mem : SysfdMem}
    {sysfd : FileDescriptor} (absent : vfsFdtGetSysfd fd pid fdt = none)
    (made : vfsFdtNewSysfd mem fd pid fdt = (some sysfd, fdt')) (flags : BitVec 32)
    (vnode : VirtualNodeRef) :
    Added fdt (vfsFdtStore { sysfd with flags := flags, vnode := vnode } fdt') (fd, pid)
      { sysfd with flags := flags, vnode := vnode } := by
  refine ⟨absent, fun other owner found => ?_⟩
  have new := (vfsFdtNewSysfd_insert made).1
  rw [vfsFdtStore_get (wf.newSysfd made), vfsFdtNewSysfd_get wf made, new]
  by_cases here : other = fd ∧ owner = pid
  · rw [if_pos here, if_pos here]
    refine and_iff_left ⟨⟨fd, pid, 0, 0, 0⟩, ?_⟩
    rw [vfsFdtNewSysfd_get wf made, if_pos ⟨rfl, rfl⟩, new]
  · rw [if_neg here, if_neg here, if_neg here]

/-- A descriptor that is taken back at once leaves the others as they were. -/
theorem freeSysfd_newSysfd (wf : FdtWellFormed fdt) {fd : Fd} {pid : Pid} {mem : SysfdMem}
    {sysfd : FileDescriptor} (made : vfsFdtNewSysfd mem fd pid fdt = (some sysfd, fdt')) :
    Taken fdt (vfsFdtFreeSysfd sysfd fdt') (fd, pid) := by
  intro other owner found
  rw [vfsFdtFreeSysfd_get (wf.newSysfd made), vfsFdtNewSysfd_get wf made,
    (vfsFdtNewSysfd_insert made).1]
  by_cases here : other = fd ∧ owner = pid
  · exact iff_of_false (fun taken => taken.1 here) fun taken => taken.1 here
  · rw [if_neg here]

theorem freeSysfd_taken (wf : FdtWellFormed fdt) {fd : Fd} {pid : Pid} {sysfd : FileDescriptor}
    (found : vfsFdtGetSysfd fd pid fdt = some sysfd) :
    Taken fdt (vfsFdtFreeSysfd sysfd fdt) (fd, pid) := by
  intro other owner left
  obtain ⟨named, owned⟩ := wf.named fd pid sysfd found
  rw [vfsFdtFreeSysfd_get wf, named, owned]

theorem Taken.descriptors {fd : Fd} {pid : Pid} (taken : Taken fdt fdt' (fd, pid))
    (wf : FdtWellFormed fdt') (desc : Descriptors fdt procs) {proc : Process}
    (named : proc.pid = pid) (fits : proc.Fits)
    (kept : ∀ i, (procs pid).fds.getD i false = true → proc.fds.getD i false = true) :
    Descriptors fdt' (Function.update procs pid (procFreeFd fd proc)) := by
  constructor
  · exact wf
  · intro other
    by_cases here : other = pid
    · rw [here, Function.update_self, procFreeFd_pid]
      exact named
    · rw [Function.update_of_ne here]
      exact desc.pids other
  · intro other
    by_cases here : other = pid
    · rw [here, Function.update_self]
      exact fits.freeFd fd
    · rw [Function.update_of_ne here]
      exact desc.fits other
  · intro other owner sysfd found
    obtain ⟨different, found⟩ := (taken other owner sysfd).mp found
    have flag := desc.flagged other owner sysfd found
    by_cases here : owner = pid
    · rw [here] at flag
      rw [here, Function.update_self, procFreeFd_fds, if_neg fun same =>
        different ⟨BitVec.eq_of_toNat_eq same, here⟩]
      exact kept _ flag
    · rw [Function.update_of_ne here]
      exact flag

theorem Added.descriptors {fd : Fd} {pid : Pid} {sysfd : FileDescriptor}
    (added : Added fdt fdt' (fd, pid) sysfd) (wf : FdtWellFormed fdt')
    (desc : Descriptors fdt procs) {proc : Process} (named : proc.pid = pid) (fits : proc.Fits)
    (kept : ∀ i, (procs pid).fds.getD i false = true → proc.fds.getD i false = true)
    (marked : proc.fds.getD fd.toNat false = true) :
    Descriptors fdt' (Function.update procs pid proc) := by
  have old := desc.setProc named fits kept
  refine ⟨wf, old.pids, old.fits, fun other owner found there => ?_⟩
  rw [added.2] at there
  by_cases here : other = fd ∧ owner = pid
  · rw [here.1, here.2, Function.update_self]
    exact marked
  · rw [if_neg here] at there
    exact old.flagged other owner found there

theorem fsLookupVnode_mem {path : List Byte} {fs : FileSystem} {vnode : VirtualNode}
    (h : fsLookupVnode path fs = .ok (.ok vnode)) : vnode ∈ fs.vnodeLl := by
  have loop (rest : List VirtualNode) (relative : List Byte)
      (found : fsLookupVnodeCachedRelativeLoop relative fs rest = .ok (some vnode)) :
      vnode ∈ rest := by
    induction rest with
    | nil => cases found
    | cons first rest ih =>
      rw [fsLookupVnodeCachedRelativeLoop] at found
      obtain ⟨tmpPath, -, found⟩ := Exec.bind_ok.mp found
      split at found
      · cases found
        exact List.mem_cons_self
      · exact List.mem_cons_of_mem _ (ih found)
  unfold fsLookupVnode at h
  split at h
  · cases h
  · obtain ⟨hit, found, h⟩ := Exec.bind_ok.mp h
    cases hit with
    | none => cases h
    | some other =>
      cases h
      exact loop _ _ found

variable {s s' : Session}

theorem Mounts.Counts.openDescriptor {mounts : Mounts} {vnode : VirtualNode} {key : Fd × Pid}
    {sysfd : FileDescriptor} (counts : mounts.Counts fun addr => (openDescriptors fdt addr).ncard)
    (due : mounts.NoneDue) (member : vnode ∈ mounts.vnodes) (added : Added fdt fdt' key sysfd)
    (refers : sysfd.vnode = vnode.addr) :
    ((vnodeIncreaseRefcount vnode.addr mounts).Counts fun addr =>
        (openDescriptors fdt' addr).ncard) ∧
      (vnodeIncreaseRefcount vnode.addr mounts).NoneDue ∧
      (vnodeIncreaseRefcount vnode.addr mounts).removed = mounts.removed := by
  refine counts.increase due member ?_ fun addr other => ?_
  · have outside : key ∉ openDescriptors fdt vnode.addr := by
      rintro ⟨old, there, -⟩
      rw [added.1] at there
      cases there
    rw [openDescriptors_of_added added, if_pos refers.symm,
      Set.ncard_insert_of_notMem outside (Set.toFinite _)]
  · rw [openDescriptors_of_added added, if_neg (by rw [refers]; exact other)]

/-- Opening a vnode adds a reference to it, or changes nothing that is counted. -/
theorem Session.Counted.openVnode (counted : s.Counted) (answers : FileAnswers) (mem : OpenMem)
    {vnode : VirtualNode} (member : vnode ∈ s.vfs.world.vnodes) (flags : BitVec 32) (pid : Pid)
    {st : Int} {proc : Process} {vfs : Vfs Mounts}
    (h : vfsOpenVnode (mountedFileSystems answers) mem vnode.addr flags (s.procs pid) s.vfs =
      (st, proc, vfs)) :
    Session.Counted ⟨vfs, Function.update s.procs pid proc⟩ ∧
      vfs.world.removed = s.vfs.world.removed := by
  have desc := counted.descriptors
  unfold vfsOpenVnode at h
  dsimp only at h
  generalize numbered : procNewFd mem.fds (s.procs pid) = result at h
  obtain ⟨procfd, marked⟩ := result
  obtain ⟨named, fits, kept, free⟩ := procNewFd_spec (desc.fits pid) numbered
  rw [desc.pids pid] at named
  dsimp only at h
  split at h
  · cases h
    exact ⟨⟨desc.setProc named fits kept, counted.counts, counted.due⟩, rfl⟩
  · rename_i positive
    obtain ⟨unmarked, mark⟩ := free (Int.not_lt.mp positive)
    have absent : vfsFdtGetSysfd (BitVec.ofInt 32 procfd) pid s.vfs.fdt = none := by
      rw [Option.eq_none_iff_forall_ne_some]
      intro sysfd there
      have flag := desc.flagged _ _ _ there
      rw [unmarked] at flag
      cases flag
    rw [named] at h
    split at h
    · rename_i failed
      cases h
      have same := vfsFdtNewSysfd_none desc.wellFormed failed
      subst same
      have taken : Taken s.vfs.fdt s.vfs.fdt (BitVec.ofInt 32 procfd, pid) := by
        intro other owner found
        refine ⟨fun there => ⟨fun here => ?_, there⟩, fun there => there.2⟩
        rw [here.1, here.2, absent] at there
        cases there
      exact ⟨⟨taken.descriptors desc.wellFormed desc named fits kept, counted.counts,
        counted.due⟩, rfl⟩
    · rename_i sysfd fdt made
      have wf := desc.wellFormed.newSysfd made
      split at h
      · cases h
        have taken := freeSysfd_newSysfd desc.wellFormed made
        refine ⟨⟨taken.descriptors (wf.freeSysfd sysfd) desc named fits kept, ?_, counted.due⟩, rfl⟩
        have same : openDescriptors (vfsFdtFreeSysfd sysfd fdt) = openDescriptors s.vfs.fdt :=
          funext fun addr => openDescriptors_of_absent taken absent addr
        show s.vfs.world.Counts fun addr => (openDescriptors (vfsFdtFreeSysfd sysfd fdt) addr).ncard
        rw [same]
        exact counted.counts
      · cases h
        have added := newSysfd_added desc.wellFormed absent made flags vnode.addr
        obtain ⟨counts, due, same⟩ := counted.counts.openDescriptor counted.due member added rfl
        exact ⟨⟨added.descriptors (wf.store _) desc named fits kept mark, counts, due⟩, same⟩

/-- What `rmnode` was given in a call, as the call found it. -/
def Removal (s : Session) : FileCall → VirtualNode → Prop
  | .openFile .., _ => False
  | .close pid _ fd, vnode => ∃ sysfd, vfsFdtGetSysfd fd pid s.vfs.fdt = some sysfd ∧
      sysfd.vnode = vnode.addr ∧ s.vfs.world.vnode vnode.addr = some { vnode with refCount := 1 }
  | .rmfile _, vnode => s.vfs.world.vnode vnode.addr = some { vnode with pendingRm := false }

/-- A call removes at most one vnode, which is marked and has no reference left. -/
def RemovesDue (s : Session) (call : FileCall) (s' : Session) : Prop :=
  s'.vfs.world.removed = s.vfs.world.removed ∨
    ∃ vnode, Gave s.vfs.world s'.vfs.world vnode ∧ Removal s call vnode

theorem Session.Counted.openFile (counted : s.Counted) {pid : Pid} {answers : FileAnswers}
    {mem : OpenMem} {flags mode : BitVec 32}
    (step : FileStep s (.openFile pid answers mem flags mode) s') :
    s'.Counted ∧ RemovesDue s (.openFile pid answers mem flags mode) s' := by
  obtain ⟨st, h⟩ := step
  obtain ⟨⟨st, proc, vfs⟩, opened, h⟩ := Exec.bind_ok.mp h
  cases h
  rcases mountedOpen_cases opened with ⟨-, rfl, rfl⟩ | ⟨path, fs, copied, absolute, owner, ends⟩
  · rw [Function.update_eq_self]
    exact ⟨counted, .inl rfl⟩
  have member := (vfsTopmostFsForPath_ok.mp owner).mem
  rcases ends with ⟨vnode, found, opened⟩ | ⟨-, -, rfl, rfl⟩ | ⟨missing, creat⟩
  · obtain ⟨counted, same⟩ := counted.openVnode answers mem
      (mem_vnodes.mpr ⟨fs, member, fsLookupVnode_mem found⟩) flags pid opened
    exact ⟨counted, .inl same⟩
  · rw [Function.update_eq_self]
    exact ⟨counted, .inl rfl⟩
  · obtain ⟨res, fs', made, rfl, rfl, -⟩ :=
      (mountedOpen_create copied absolute owner missing creat).mp opened
    rw [Function.update_eq_self]
    obtain ⟨counts, due⟩ := counted.counts.mkfile counted.due member made
    exact ⟨⟨counted.descriptors, counts, due⟩, .inl rfl⟩

theorem Session.Counted.close (counted : s.Counted) {pid : Pid} {answers : FileAnswers} {fd : Fd}
    (step : FileStep s (.close pid answers fd) s') :
    s'.Counted ∧ RemovesDue s (.close pid answers fd) s' := by
  obtain ⟨st, h⟩ := step
  obtain ⟨⟨st, proc, vfs⟩, closed, h⟩ := Exec.bind_ok.mp h
  cases h
  have desc := counted.descriptors
  unfold mountedClose vfsClose at closed
  split at closed
  · cases closed
    rw [Function.update_eq_self]
    exact ⟨counted, .inl rfl⟩
  · split at closed
    · cases closed
      rw [Function.update_eq_self]
      exact ⟨counted, .inl rfl⟩
    · rename_i sysfd found
      rw [desc.pids pid] at found
      split at closed
      · cases closed
      · rename_i world decreased
        cases closed
        have taken := freeSysfd_taken desc.wellFormed found
        have inside : (fd, pid) ∈ openDescriptors s.vfs.fdt sysfd.vnode := ⟨sysfd, found, rfl⟩
        have fewer : (openDescriptors (vfsFdtFreeSysfd sysfd s.vfs.fdt) sysfd.vnode).ncard =
            (openDescriptors s.vfs.fdt sysfd.vnode).ncard - 1 := by
          rw [openDescriptors_of_taken taken, Set.ncard_sdiff_singleton_of_mem inside]
        have others (addr : VirtualNodeRef) (other : addr ≠ sysfd.vnode) :
            (openDescriptors (vfsFdtFreeSysfd sysfd s.vfs.fdt) addr).ncard =
              (openDescriptors s.vfs.fdt addr).ncard := by
          rw [openDescriptors_of_taken taken, Set.sdiff_singleton_eq_self]
          rintro ⟨same, there, refers⟩
          rw [found] at there
          cases there
          exact other refers.symm
        obtain ⟨counts, due, removes⟩ := counted.counts.decrease counted.due
          (openDescriptors_ncard_pos found) fewer others decreased
        refine ⟨⟨taken.descriptors (desc.wellFormed.freeSysfd sysfd) desc (desc.pids pid)
          (desc.fits pid) fun _ set => set, counts, due⟩, ?_⟩
        rcases removes with same | ⟨vnode, gave, old⟩
        · exact .inl same
        · have here : vnode.addr = sysfd.vnode := (counted.counts.apart.vnode.mp old).2
          rw [← here] at old
          exact .inr ⟨vnode, gave, sysfd, found, here.symm, old⟩

theorem Session.Counted.rmfile (counted : s.Counted) {path : Except Errno (List Byte)}
    (step : FileStep s (.rmfile path) s') : s'.Counted ∧ RemovesDue s (.rmfile path) s' := by
  obtain ⟨st, h⟩ := step
  obtain ⟨⟨st, world⟩, removed, h⟩ := Exec.bind_ok.mp h
  cases h
  have kept : s.Counted ∧ RemovesDue s (.rmfile path) s := ⟨counted, .inl rfl⟩
  unfold mountedRmfile at removed
  split at removed
  · cases removed
    exact kept
  · split at removed
    · cases removed
      exact kept
    · obtain ⟨fs, owner, removed⟩ := Exec.bind_ok.mp removed
      obtain ⟨looked, found, removed⟩ := Exec.bind_ok.mp removed
      have member := (vfsTopmostFsForPath_ok.mp owner).mem
      cases looked with
      | error st =>
        cases removed
        exact kept
      | ok vnode =>
        have inside := mem_vnodes.mpr ⟨fs, member, fsLookupVnode_mem found⟩
        have stored : (s.vfs.world.setVnode { vnode with pendingRm := true }).Counts fun addr =>
            (openDescriptors s.vfs.fdt addr).ncard :=
          counted.counts.store inside rfl (counted.counts.counted vnode inside) fun _ _ => rfl
        dsimp only at removed
        split at removed
        · cases removed
          exact kept
        · split at removed
          · rename_i unused
            obtain ⟨mounts, gone, removed⟩ := Exec.bind_ok.mp removed
            cases removed
            have there : ∃ old ∈ s.vfs.world.vnodes,
                old.addr = ({ vnode with pendingRm := true } : VirtualNode).addr :=
              ⟨vnode, inside, rfl⟩
            refine ⟨⟨counted.descriptors, stored.rmnode ((mem_setVnode there).mpr (.inl rfl)) rfl
              unused gone, stored.rmnode_noneDue (fun other left different => ?_) gone⟩,
              .inr ⟨_, ⟨(rmnode_vnodes stored.apart gone).2.2.2, rfl, unused⟩, ?_⟩⟩
            · rcases (mem_setVnode there).mp left with rfl | ⟨left, -⟩
              · exact absurd rfl different
              · exact counted.due other left
            · have unmarked : vnode.pendingRm = false := by
                by_contra marked
                have held := counted.due vnode inside (Bool.not_eq_false _ ▸ marked)
                rw [unused] at held
                exact Nat.lt_irrefl 0 held
              show s.vfs.world.vnode vnode.addr = some { vnode with pendingRm := false }
              rw [counted.counts.apart.vnode.mpr ⟨inside, rfl⟩, ← unmarked]
          · rename_i used
            cases removed
            exact ⟨⟨counted.descriptors, stored, counted.due.store inside rfl fun _ =>
              Nat.pos_of_ne_zero used⟩, .inl rfl⟩

theorem Session.Counted.step (counted : s.Counted) {call : FileCall} (step : FileStep s call s') :
    s'.Counted ∧ RemovesDue s call s' := by
  cases call with
  | openFile pid answers mem flags mode => exact counted.openFile step
  | close pid answers fd => exact counted.close step
  | rmfile path => exact counted.rmfile step

/-- Nothing was opened or removed yet. -/
structure Session.Started (s : Session) : Prop where
  apart : s.vfs.world.Apart
  unused : ∀ vnode ∈ s.vfs.world.vnodes, vnode.refCount = 0 ∧ vnode.pendingRm = false
  removed : s.vfs.world.removed = []
  empty : ∃ chew, s.vfs.fdt = HashTable.init chew
  pids : ∀ pid, (s.procs pid).pid = pid
  fits : ∀ pid, (s.procs pid).Fits

theorem Session.Started.counted (started : s.Started) : s.Counted := by
  obtain ⟨chew, empty⟩ := started.empty
  have absent (fd : Fd) (pid : Pid) : vfsFdtGetSysfd fd pid s.vfs.fdt = none := by
    rw [empty]
    exact vfsFdtGetSysfd_init chew fd pid
  have none (addr : VirtualNodeRef) : (openDescriptors s.vfs.fdt addr).ncard = 0 := by
    rw [Set.ncard_eq_zero (Set.toFinite _), Set.eq_empty_iff_forall_notMem]
    rintro ⟨fd, pid⟩ ⟨sysfd, found, -⟩
    rw [absent] at found
    cases found
  refine ⟨⟨?_, started.pids, started.fits, ?_⟩, ⟨started.apart, ?_, ?_, ?_, ?_⟩, ?_⟩
  · rw [empty]
    exact fdtWellFormed_init chew
  · intro fd pid sysfd found
    rw [absent] at found
    cases found
  · intro vnode inside
    rw [none]
    exact (started.unused vnode inside).1
  · intro addr held
    rw [none] at held
    cases held
  · rw [started.removed]
    nofun
  · rw [started.removed]
    exact List.nodup_nil
  · intro vnode inside pending
    rw [(started.unused vnode inside).2] at pending
    cases pending

/-- What ties the reference counts, the removals and the open descriptors together. -/
structure Session.Referenced (s : Session) : Prop where
  counts : ∀ vnode ∈ s.vfs.world.vnodes,
    vnode.refCount = (openDescriptors s.vfs.fdt vnode.addr).ncard
  once : (s.vfs.world.removed.map VirtualNode.addr).Nodup
  removed : ∀ vnode ∈ s.vfs.world.removed, vnode.pendingRm = true ∧ vnode.refCount = 0
  due : ∀ vnode ∈ s.vfs.world.vnodes, ¬ (vnode.pendingRm = true ∧ vnode.refCount = 0)
  live : ∀ fd pid sysfd, vfsFdtGetSysfd fd pid s.vfs.fdt = some sysfd →
    ∃ vnode, s.vfs.world.vnode sysfd.vnode = some vnode ∧ 0 < vnode.refCount
  kept : ∀ fd pid sysfd, vfsFdtGetSysfd fd pid s.vfs.fdt = some sysfd →
    ∀ vnode ∈ s.vfs.world.removed, sysfd.vnode ≠ vnode.addr

theorem Session.Counted.referenced (counted : s.Counted) : s.Referenced := by
  have counts := counted.counts
  constructor
  · exact counts.counted
  · exact counts.once
  · intro vnode inside
    obtain ⟨pending, none, -⟩ := counts.removed vnode inside
    exact ⟨pending, none⟩
  · rintro vnode inside ⟨pending, none⟩
    exact absurd (counted.due vnode inside pending) (by rw [none]; exact Nat.lt_irrefl 0)
  · intro fd pid sysfd found
    have held := openDescriptors_ncard_pos found
    obtain ⟨vnode, inside, here⟩ := counts.live _ held
    refine ⟨vnode, counts.apart.vnode.mpr ⟨inside, here⟩, ?_⟩
    rw [counts.counted vnode inside, here]
    exact held
  · intro fd pid sysfd found gone inside
    obtain ⟨vnode, live, here⟩ := counts.live _ (openDescriptors_ncard_pos found)
    rw [← here]
    exact (counts.removed gone inside).2.2.2 vnode live

/-- In every run of opens, closes and removals the reference counts are those of the descriptors,
    and a vnode is removed once, when it is marked and its last reference is gone. -/
theorem vnodes_referenced {start : Session} {calls : List FileCall} (started : start.Started)
    (run : Run FileStep start calls s) :
    s.Referenced ∧ ∀ call s', FileStep s call s' → RemovesDue s call s' := by
  have counted : s.Counted := run.invariant Session.Counted
    (fun _ _ _ step counted => (counted.step step).1) started.counted
  exact ⟨counted.referenced, fun call s' step => (counted.step step).2⟩

def Session.next (s : Session) (call : FileCall) : Option Session :=
  (s.call call).toOption.map Prod.snd

theorem fileStep_of_next {call : FileCall} (h : s.next call = some s') : FileStep s call s' := by
  obtain ⟨⟨st, after⟩, done, rfl⟩ := Option.map_eq_some_iff.mp h
  refine ⟨st, ?_⟩
  cases result : s.call call with
  | error stop =>
    rw [result] at done
    cases done
  | ok pair =>
    rw [result] at done
    cases done
    rfl

theorem run_of_calls {calls : List FileCall} (done : calls.foldlM Session.next s = some s') :
    Run FileStep s calls s' :=
  (Run.of_foldlM Session.next done).mono fun _ _ _ => fileStep_of_next

/-- No process has opened anything. -/
def Session.boot (mounts : Mounts) : Session :=
  ⟨⟨HashTable.init sha1OfKeys, mounts, []⟩, fun pid => ⟨pid, [], 0, false, 0⟩⟩

theorem started_initMounts : (Session.boot initMounts).Started := by
  exact ⟨⟨⟨by decide, by decide⟩, by decide, by decide⟩, by decide, rfl, ⟨_, rfl⟩, fun _ => rfl,
    fun _ => ⟨Nat.le_refl _, Nat.two_pow_pos 32⟩⟩

def answersFor (path : List Byte) : FileAnswers := ⟨.ok path, ⟨true, true⟩, 0, 0⟩

def enough : OpenMem := ⟨true, ⟨true, true, true⟩⟩

/-- Process 1 makes a file, it and process 2 open the file, and it is removed while it is open. -/
def sharedFile (path : List Byte) : List FileCall :=
  [.openFile 1 (answersFor path) enough 0x8 0, .openFile 1 (answersFor path) enough 0x1 0,
    .openFile 2 (answersFor path) enough 0x1 0, .rmfile (.ok path),
    .close 1 (answersFor path) 0, .close 2 (answersFor path) 0]

theorem vnodes_referenced_shared :
    ∃ s, Run FileStep (.boot initMounts)
        (sharedFile [slash, 0x64, 0x65, 0x76, slash, 0x61]) s ∧
      s.vfs.world.removed.map VirtualNode.addr = [5] ∧ s.Referenced := by
  have done : ((sharedFile [slash, 0x64, 0x65, 0x76, slash, 0x61]).foldlM Session.next
      (.boot initMounts)).map (fun s => s.vfs.world.removed.map VirtualNode.addr) = some [5] := by
    decide +kernel
  obtain ⟨s, ran, removed⟩ := Option.map_eq_some_iff.mp done
  have run := run_of_calls ran
  exact ⟨s, run, removed, (vnodes_referenced started_initMounts run).1⟩

end Dxgmx
