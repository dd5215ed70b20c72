import Dxgmx.Fs.Fat
import Dxgmx.Fs.Ramfs
import Dxgmx.Fs.Vfs

namespace Dxgmx

/-- A file of a FAT volume with what the disk and `kmalloc` answer to a read of it. -/
structure FatFile where
  read : PartRead
  failsNegative : ∀ sec n st, read sec n = .error st → st < 0
  ctx : Fat32Ctx
  vnode : FileVnode
  fatbuf : Bool
  clusbuf : Option (Nat → Byte)

inductive OpenFile
  | ramfs (file : RamfsFile)
  | fat (file : FatFile)

def OpenFile.size : OpenFile → BitVec 32
  | .ramfs file => file.size
  | .fat file => file.vnode.size

/-- `vnode->ops->read`. -/
def OpenFile.read (file : OpenFile) (access : UserAccess) (buf : Ptr) (n off : BitVec 32)
    (mem : Memory) : Int × Memory :=
  match file with
  | .ramfs file => ramfsRead file (userCopyTo access buf) n off mem
  | .fat file =>
    fatRead file.read file.ctx file.vnode file.fatbuf file.clusbuf (userCopyTo access buf) n off mem

/-- The file systems when every vnode is a file of a ramfs or of a FAT volume. -/
def FileSystems.withFiles (base : FileSystems Memory) (files : VirtualNodeRef → OpenFile)
    (access : UserAccess) : FileSystems Memory :=
  { base with opsRead := fun vnode buf n off mem => (files vnode).read access buf n off mem }

def sysRead (fs : FileSystems Memory) (fd : Fd) (buf : Ptr) (n : BitVec 32) (currentProc : Process)
    (vfs : Vfs Memory) : Int × Vfs Memory :=
  vfsRead fs fd buf n currentProc vfs

/-- How many bytes there are to copy. -/
def OpenFile.count (file : OpenFile) (n off : BitVec 32) : Nat :=
  if file.size ≤ off then 0 else min n.toNat (file.size - off).toNat

/-- `fat_read` gives up for want of memory, at the end of the cluster chain or on a disk error. -/
def FatFile.Refuses (file : FatFile) (count : Nat) (off : BitVec 32) : Prop :=
  file.fatbuf = false ∨
    match fatSkipClusters file.read file.ctx (off.toNat / file.ctx.clustersize) file.vnode.n with
    | .error _ => True
    | .ok cluster =>
      let wanted := BitVec.ofNat 64 ((count + off.toNat % file.ctx.clustersize) % 2 ^ 32)
      let workingSize :=
        (bytesAlignUp64 wanted (BitVec.ofNat 64 file.ctx.clustersize)).toNat % 2 ^ 32
      match file.clusbuf with
      | none => True
      | some clusbuf =>
        ∃ st, fatReadClusters file.read file.ctx (workingSize / file.ctx.clustersize) 0 cluster
          clusbuf = .error st

def OpenFile.Refuses (file : OpenFile) (n off : BitVec 32) : Prop :=
  match file with
  | .ramfs _ => False
  | .fat onVolume => 0 < file.count n off ∧ onVolume.Refuses (file.count n off) off

theorem count_lt (file : OpenFile) (n off : BitVec 32) : file.count n off < 2 ^ 32 := by
  unfold OpenFile.count
  split
  · omega
  · exact lt_of_le_of_lt (Nat.min_le_left _ _) n.isLt

theorem count_le (file : OpenFile) (n off : BitVec 32) : file.count n off ≤ n.toNat := by
  unfold OpenFile.count
  split
  · omega
  · exact Nat.min_le_left _ _

theorem count_pos {file : OpenFile} {n off : BitVec 32} :
    0 < file.count n off ↔ ¬ (n = 0 ∨ file.size ≤ off) := by
  unfold OpenFile.count
  split
  · rename_i past
    simp [past]
  · rename_i before
    have room : 0 < (file.size - off).toNat := by
      have less : off.toNat < file.size.toNat := by
        rw [BitVec.le_def] at before
        omega
      rw [BitVec.toNat_sub]
      have small := file.size.isLt
      omega
    rw [lt_min_iff]
    simp only [before, or_false, room, and_true]
    rw [Nat.pos_iff_ne_zero, ne_eq, ← BitVec.toNat_inj]
    rfl

theorem fatNextClus_negative {read : PartRead} {ctx : Fat32Ctx} {clus : Nat} {st : Int} :
    fatNextClus read ctx clus = .error st → st < 0 := by
  unfold fatNextClus
  dsimp only
  split_ifs
  · exact nofun
  · intro refused
    cases refused
    decide

theorem fatSkipClusters_negative {file : FatFile} {left cluster : Nat} {st : Int}
    (h : fatSkipClusters file.read file.ctx left cluster = .error st) : st < 0 := by
  induction left generalizing cluster with
  | zero => cases h
  | succ left ih =>
    rw [fatSkipClusters] at h
    cases next : fatNextClus file.read file.ctx cluster with
    | error errno =>
      rw [next] at h
      cases h
      exact fatNextClus_negative next
    | ok next' =>
      rw [next] at h
      exact ih h

theorem fatReadClusters_negative {file : FatFile} {left clusbufOff cluster : Nat}
    {clusbuf : Nat → Byte} {st : Int}
    (h : fatReadClusters file.read file.ctx left clusbufOff cluster clusbuf = .error st) :
    st < 0 := by
  induction left generalizing clusbufOff cluster clusbuf with
  | zero => cases h
  | succ left ih =>
    rw [fatReadClusters] at h
    cases bytes : file.read (fatClusterToSector file.ctx cluster) file.ctx.sectorsPerCluster with
    | error errno =>
      rw [bytes] at h
      cases h
      exact file.failsNegative _ _ _ bytes
    | ok sectors =>
      rw [bytes] at h
      cases next : fatNextClus file.read file.ctx cluster with
      | error errno =>
        dsimp only [Bind.bind, Except.bind] at h
        rw [next] at h
        cases h
        exact fatNextClus_negative next
      | ok next' =>
        dsimp only [Bind.bind, Except.bind] at h
        rw [next] at h
        exact ih h

section Read

variable {file : OpenFile} (access : UserAccess) (buf : Ptr) {n off : BitVec 32} (mem : Memory)

theorem read_nothing (none : file.count n off = 0) : file.read access buf n off mem = (0, mem) := by
  have trivial : n = 0 ∨ file.size ≤ off := by
    by_contra some_
    exact absurd (count_pos.mpr some_) (by omega)
  cases file with
  | ramfs file => exact if_pos trivial
  | fat file => exact if_pos trivial

theorem read_refused (refuses : file.Refuses n off) :
    ∃ st < 0, file.read access buf n off mem = (st, mem) := by
  cases file with
  | ramfs file => cases refuses
  | fat file =>
    obtain ⟨some_, refuses⟩ := refuses
    have notTrivial : ¬ (n = 0 ∨ file.vnode.size ≤ off) := count_pos.mp some_
    have counted : (OpenFile.fat file).count n off = min n.toNat (file.vnode.size - off).toNat :=
      if_neg (not_or.mp notTrivial).2
    rw [counted] at refuses
    unfold OpenFile.read fatRead
    dsimp only
    rw [if_neg notTrivial]
    split
    · exact ⟨-12, by decide, rfl⟩
    · rename_i room
      rcases refuses with noRoom | refuses
      · exact absurd noRoom room
      · split
        · rename_i st failed
          exact ⟨st, fatSkipClusters_negative failed, rfl⟩
        · rename_i cluster skipped
          rw [skipped] at refuses
          dsimp only at refuses
          split
          · exact ⟨-12, by decide, rfl⟩
          · rename_i clusbuf allocated
            rw [allocated] at refuses
            obtain ⟨st, failed⟩ := refuses
            refine ⟨st, fatReadClusters_negative failed, ?_⟩
            rw [failed]

theorem read_copies (some_ : 0 < file.count n off) (serves : ¬ file.Refuses n off) :
    ∃ bytes, file.read access buf n off mem = ((BitVec.ofNat 32 (file.count n off)).toInt,
      (userCopyTo access buf bytes (file.count n off) mem).2) := by
  cases file with
  | ramfs file =>
    have notTrivial : ¬ (n = 0 ∨ file.size ≤ off) := count_pos.mp some_
    have counted : (OpenFile.ramfs file).count n off = min n.toNat (file.size - off).toNat :=
      if_neg (not_or.mp notTrivial).2
    refine ⟨fun m => file.data (off.toNat + m), ?_⟩
    rw [counted]
    exact if_neg notTrivial
  | fat file =>
    have notTrivial : ¬ (n = 0 ∨ file.vnode.size ≤ off) := count_pos.mp some_
    have counted : (OpenFile.fat file).count n off = min n.toNat (file.vnode.size - off).toNat :=
      if_neg (not_or.mp notTrivial).2
    have serves : ¬ file.Refuses _ off := fun refuses => serves ⟨some_, refuses⟩
    rw [counted] at serves ⊢
    unfold FatFile.Refuses at serves
    unfold OpenFile.read fatRead
    dsimp only
    rw [if_neg notTrivial]
    rw [not_or] at serves
    rw [if_neg serves.1]
    split
    · rename_i failed
      exact absurd (by rw [failed]; exact True.intro) serves.2
    · rename_i cluster skipped
      rw [skipped] at serves
      dsimp only at serves
      split
      · rename_i allocated
        rw [allocated] at serves
        exact absurd True.intro serves.2
      · rename_i clusbuf allocated
        rw [allocated] at serves
        split
        · rename_i st failed
          exact absurd ⟨st, failed⟩ serves.2
        · rename_i staged _
          exact ⟨fun m => staged (off.toNat + m), rfl⟩

end Read

/-- Some byte of the buffer is the kernel's. -/
def Reaches (buf : Ptr) (n : BitVec 32) : Prop := ∃ i < n.toNat, InKernel (buf + BitVec.ofNat 32 i)

/-- What a read must not do: store to the kernel, or succeed on a buffer that reaches it. -/
def Guarded (bytes : Ptr → Byte) (buf : Ptr) (n : BitVec 32) (result : Int × Vfs Memory) : Prop :=
  (∀ addr ∈ result.2.world.stored, ¬ InKernel addr) ∧
    (Reaches buf n → result.1 < 0 ∧
      ∀ addr, InKernel addr → result.2.world.bytes addr = bytes addr)

section SysRead

variable (base : FileSystems Memory) (files : VirtualNodeRef → OpenFile) (access : UserAccess)
  (fd : Fd) (buf : Ptr) (n : BitVec 32) (proc : Process) (vfs : Vfs Memory)

/-- The call is rejected before anything is copied. -/
def Refused : Prop :=
  fd.toInt < 0 ∨ vfsFdtGetSysfd fd proc.pid vfs.fdt = none ∨
    ∃ sysfd, vfsFdtGetSysfd fd proc.pid vfs.fdt = some sysfd ∧
      (base.mode sysfd.vnode vfs.world &&& 0x4000 ≠ 0 ∨ sysfd.flags &&& 0x1 = 0 ∨
        (files sysfd.vnode).Refuses n sysfd.off)

/-- There are 2 GiB or more to copy, so that the count comes back as a negative number, and the copy
    faults before it gets to the kernel. -/
def LostCopy : Prop :=
  ∃ sysfd, vfsFdtGetSysfd fd proc.pid vfs.fdt = some sysfd ∧
    2 ^ 31 ≤ (files sysfd.vnode).count n sysfd.off ∧
      ∀ i < (files sysfd.vnode).count n sysfd.off, InKernel (buf + BitVec.ofNat 32 i) →
        ∃ j ≤ i, ¬ access.Passes buf j

variable {base files fd buf n proc vfs}

theorem vfsReadSysfd_directory (fs : FileSystems Memory) (buf : Ptr) {sysfd : FileDescriptor}
    (directory : fs.mode sysfd.vnode vfs.world &&& 0x4000 ≠ 0) :
    vfsReadSysfd fs sysfd buf n vfs = (-21, vfs) :=
  if_pos directory

theorem vfsReadSysfd_unreadable (fs : FileSystems Memory) (buf : Ptr) {sysfd : FileDescriptor}
    (file : fs.mode sysfd.vnode vfs.world &&& 0x4000 = 0) (unreadable : sysfd.flags &&& 0x1 = 0) :
    vfsReadSysfd fs sysfd buf n vfs = (-9, vfs) := by
  unfold vfsReadSysfd
  rw [if_neg (not_not.mpr file), if_pos unreadable]

theorem vfsReadSysfd_nothing (fs : FileSystems Memory) (buf : Ptr) {sysfd : FileDescriptor}
    (file : fs.mode sysfd.vnode vfs.world &&& 0x4000 = 0) (readable : sysfd.flags &&& 0x1 ≠ 0) :
    vfsReadSysfd fs sysfd buf 0 vfs = (0, vfs) := by
  unfold vfsReadSysfd
  rw [if_neg (not_not.mpr file), if_neg readable, if_pos rfl]

theorem vfsReadSysfd_world (fs : FileSystems Memory) (buf : Ptr) {sysfd : FileDescriptor}
    (file : fs.mode sysfd.vnode vfs.world &&& 0x4000 = 0) (readable : sysfd.flags &&& 0x1 ≠ 0)
    (some_ : n ≠ 0) :
    (vfsReadSysfd fs sysfd buf n vfs).1 = (fs.opsRead sysfd.vnode buf n sysfd.off vfs.world).1 ∧
      (vfsReadSysfd fs sysfd buf n vfs).2.world =
        (fs.opsRead sysfd.vnode buf n sysfd.off vfs.world).2 := by
  unfold vfsReadSysfd
  rw [if_neg (not_not.mpr file), if_neg readable, if_neg some_]
  dsimp only
  split <;> exact ⟨rfl, rfl⟩

theorem sysRead_found {fs : FileSystems Memory} {sysfd : FileDescriptor} (valid : ¬ fd.toInt < 0)
    (found : vfsFdtGetSysfd fd proc.pid vfs.fdt = some sysfd) :
    (sysRead fs fd buf n proc vfs).1 = (vfsReadSysfd fs sysfd buf n vfs).1 ∧
      (sysRead fs fd buf n proc vfs).2.world = (vfsReadSysfd fs sysfd buf n vfs).2.world := by
  unfold sysRead vfsRead
  rw [if_neg valid, found]
  exact ⟨rfl, rfl⟩

theorem sysRead_refused (access : UserAccess) (buf : Ptr) (refused : Refused base files fd n proc vfs) :
    (sysRead (base.withFiles files access) fd buf n proc vfs).1 < 0 ∧
      (sysRead (base.withFiles files access) fd buf n proc vfs).2.world = vfs.world := by
  by_cases valid : fd.toInt < 0
  · unfold sysRead vfsRead
    rw [if_pos valid]
    exact ⟨by dsimp only; decide, rfl⟩
  · rcases refused with invalid | lost | ⟨sysfd, found, why⟩
    · exact absurd invalid valid
    · unfold sysRead vfsRead
      rw [if_neg valid, lost]
      exact ⟨by dsimp only; decide, rfl⟩
    · rw [(sysRead_found valid found).1, (sysRead_found valid found).2]
      by_cases file : base.mode sysfd.vnode vfs.world &&& 0x4000 = 0
      · by_cases readable : sysfd.flags &&& 0x1 = 0
        · rw [vfsReadSysfd_unreadable (base.withFiles files access) buf file readable]
          exact ⟨by dsimp only; decide, rfl⟩
        · rcases why with directory | unreadable | refuses
          · exact absurd file directory
          · exact absurd unreadable readable
          · have some_ : n ≠ 0 := by
              rintro rfl
              cases kind : files sysfd.vnode with
              | ramfs _ =>
                rw [kind] at refuses
                cases refuses
              | fat _ =>
                rw [kind] at refuses
                exact count_pos.mp refuses.1 (.inl rfl)
            obtain ⟨st, negative, result⟩ :=
              read_refused access buf vfs.world refuses
            have outcome := vfsReadSysfd_world (base.withFiles files access) buf
              file readable some_
            rw [outcome.1, outcome.2]
            change (OpenFile.read _ access buf n sysfd.off vfs.world).1 < 0 ∧
              (OpenFile.read _ access buf n sysfd.off vfs.world).2 = vfs.world
            rw [result]
            exact ⟨negative, rfl⟩
      · rw [vfsReadSysfd_directory (base.withFiles files access) buf file]
        exact ⟨by dsimp only; decide, rfl⟩

theorem sysRead_serves (access : UserAccess) (buf : Ptr) (serves : ¬ Refused base files fd n proc vfs) :
    ∃ sysfd bytes, vfsFdtGetSysfd fd proc.pid vfs.fdt = some sysfd ∧
      (sysRead (base.withFiles files access) fd buf n proc vfs).1 =
        (BitVec.ofNat 32 ((files sysfd.vnode).count n sysfd.off)).toInt ∧
      (sysRead (base.withFiles files access) fd buf n proc vfs).2.world =
        (userCopyTo access buf bytes ((files sysfd.vnode).count n sysfd.off) vfs.world).2 := by
  unfold Refused at serves
  push Not at serves
  obtain ⟨valid, found, serves⟩ := serves
  obtain ⟨sysfd, found⟩ := Option.ne_none_iff_exists'.mp found
  obtain ⟨file, readable, serves⟩ := serves sysfd found
  rw [(sysRead_found (by omega) found).1, (sysRead_found (by omega) found).2]
  by_cases none : (files sysfd.vnode).count n sysfd.off = 0
  · refine ⟨sysfd, fun _ => 0, found, ?_⟩
    rw [none]
    by_cases nothing : n = 0
    · subst nothing
      rw [vfsReadSysfd_nothing (base.withFiles files access) buf file readable]
      exact ⟨rfl, rfl⟩
    · have outcome := vfsReadSysfd_world (base.withFiles files access) buf
        file readable nothing
      rw [outcome.1, outcome.2]
      change (OpenFile.read _ access buf n sysfd.off vfs.world).1 = _ ∧
        (OpenFile.read _ access buf n sysfd.off vfs.world).2 = _
      rw [read_nothing access buf vfs.world none]
      exact ⟨rfl, rfl⟩
  · have some_ := Nat.pos_of_ne_zero none
    obtain ⟨bytes, result⟩ :=
      read_copies access buf vfs.world some_ serves
    have outcome := vfsReadSysfd_world (base.withFiles files access) buf
      file readable (not_or.mp (count_pos.mp some_)).1
    refine ⟨sysfd, bytes, found, ?_⟩
    rw [outcome.1, outcome.2]
    change (OpenFile.read _ access buf n sysfd.off vfs.world).1 = _ ∧
      (OpenFile.read _ access buf n sysfd.off vfs.world).2 = _
    rw [result]
    exact ⟨rfl, rfl⟩

theorem toInt_negative {count : Nat} (small : count < 2 ^ 32) :
    (BitVec.ofNat 32 count).toInt < 0 ↔ 2 ^ 31 ≤ count := by
  rw [BitVec.toInt_eq_toNat_cond, BitVec.toNat_ofNat, Nat.mod_eq_of_lt small]
  split <;> omega

variable {access}

theorem copy_unguarded {bytes : Nat → Byte} {count i : Nat} {mem : Memory} (inside : i < count)
    (kernel : InKernel (buf + BitVec.ofNat 32 i)) (through : ∀ j ≤ i, access.Passes buf j) :
    ¬ ∀ addr ∈ (userCopyTo access buf bytes count mem).2.stored, ¬ InKernel addr := by
  intro guarded
  refine guarded _ ?_ kernel
  rw [userCopyTo_stored]
  exact .inr ⟨i, inside, rfl, through⟩

theorem copy_guarded (bytes : Nat → Byte) {count : Nat} (mem : Memory) (clean : mem.stored = [])
    (faults : ∀ i < count, InKernel (buf + BitVec.ofNat 32 i) → ∃ j ≤ i, ¬ access.Passes buf j) :
    ∀ addr ∈ (userCopyTo access buf bytes count mem).2.stored, ¬ InKernel addr := by
  intro addr stored kernel
  rw [userCopyTo_stored, clean] at stored
  rcases stored with before | ⟨i, inside, rfl, through⟩
  · cases before
  · obtain ⟨j, upTo, stops⟩ := faults i inside kernel
    exact stops (through j upTo)

end SysRead

/-- The state of a call, with no store so far. -/
def freshVfs (fdt : SysFdHashtable) (bytes : Ptr → Byte) (log : List FdEvent) : Vfs Memory :=
  ⟨fdt, ⟨bytes, []⟩, log⟩

/-- Nobody checks the buffer: a read is guarded where the buffer does not reach the kernel, or where
    it fails for another reason before it copies. -/
theorem sysRead_guarded_iff (base : FileSystems Memory) (files : VirtualNodeRef → OpenFile)
    (access : UserAccess) (fd : Fd) (buf : Ptr) (n : BitVec 32) (proc : Process)
    (fdt : SysFdHashtable) (bytes : Ptr → Byte) (log : List FdEvent) :
    Guarded bytes buf n
        (sysRead (base.withFiles files access) fd buf n proc (freshVfs fdt bytes log)) ↔
      ¬ Reaches buf n ∨ Refused base files fd n proc (freshVfs fdt bytes log) ∨
        LostCopy files access fd buf n proc (freshVfs fdt bytes log) := by
  by_cases refused : Refused base files fd n proc (freshVfs fdt bytes log)
  · obtain ⟨negative, same⟩ := sysRead_refused access buf refused
    refine ⟨fun _ => .inr (.inl refused), fun _ => ?_⟩
    unfold Guarded
    rw [same]
    exact ⟨nofun, fun _ => ⟨negative, fun _ _ => rfl⟩⟩
  · obtain ⟨sysfd, copied, found, result, world⟩ :=
      sysRead_serves access buf refused
    have small := count_lt (files sysfd.vnode) n sysfd.off
    have within := count_le (files sysfd.vnode) n sysfd.off
    unfold Guarded
    rw [result, world, toInt_negative small]
    constructor
    · rintro ⟨user, fails⟩
      by_cases reaches : Reaches buf n
      · refine .inr (.inr ⟨sysfd, found, (fails reaches).1, fun i inside kernel => ?_⟩)
        by_contra through
        push Not at through
        exact copy_unguarded inside kernel through user
      · exact .inl reaches
    · intro holds
      have faults : ∀ i < (files sysfd.vnode).count n sysfd.off,
          InKernel (buf + BitVec.ofNat 32 i) → ∃ j ≤ i, ¬ access.Passes buf j := by
        intro i inside kernel
        rcases holds with outside | refused' | ⟨other, there, -, faults⟩
        · exact absurd ⟨i, by omega, kernel⟩ outside
        · exact absurd refused' refused
        · rw [found] at there
          cases there
          exact faults i inside kernel
      have user := copy_guarded copied (freshVfs fdt bytes log).world rfl faults
      refine ⟨user, fun reaches => ⟨?_, fun addr kernel => ?_⟩⟩
      · rcases holds with outside | refused' | ⟨other, there, large, -⟩
        · exact absurd reaches outside
        · exact absurd refused' refused
        · rw [found] at there
          cases there
          exact large
      · exact userCopyToLoop_frame _ _ _ _ _ _ fun stored => user addr stored kernel

/-- A file of many clusters: every entry of the table leads to cluster 3. -/
def longFile : FatFile where
  read _ _ := .ok fun m => if m % 4 = 0 then 3 else 0
  failsNegative := nofun
  ctx := ⟨512, 1, 100, 32, 40, 512, .fat32⟩
  vnode := ⟨2, 8192⟩
  fatbuf := true
  clusbuf := some fun _ => 0

def oneDescriptor : SysFdHashtable :=
  vfsFdtStore ⟨0, 1, 0x1, 0, 7⟩
    (vfsFdtNewSysfd ⟨true, true, true⟩ 0 1 (HashTable.init sha1OfKeys)).2

def plainFiles : FileSystems Memory where
  userCopyStrFrom _ _ := .ok [0x2f]
  lookupVnode _ mem := (.ok 7, mem)
  mkfile _ _ mem := (.error (-38), mem)
  mode _ _ := 0
  size _ _ := 8192
  opsOpen _ _ mem := (0, mem)
  opsRead _ _ _ _ mem := (0, mem)
  vnodeIncreaseRefcount _ mem := mem
  vnodeDecreaseRefcount _ mem := .ok mem

/-- A read of one byte of `longFile` by process 1. -/
def readOneByte (buf : Ptr) : Int × Vfs Memory :=
  sysRead (plainFiles.withFiles (fun _ => .fat longFile) ⟨fun _ => true, fun _ => true⟩) 0 buf 1
    ⟨1, [true, false, false, false], 1, false, 0⟩ (freshVfs oneDescriptor (fun _ => 0) [])

/-- A byte of the kernel is overwritten and the call reports success. -/
theorem sysRead_overwrites_kernel :
    (readOneByte 0xc0100000).1 = 1 ∧ 0xc0100000 ∈ (readOneByte 0xc0100000).2.world.stored ∧
      ¬ Guarded (fun _ => 0) 0xc0100000 1 (readOneByte 0xc0100000) := by
  have stored : 0xc0100000 ∈ (readOneByte 0xc0100000).2.world.stored := by decide
  refine ⟨by decide, stored, fun guarded => guarded.1 _ stored ?_⟩
  unfold InKernel
  decide

end Dxgmx
