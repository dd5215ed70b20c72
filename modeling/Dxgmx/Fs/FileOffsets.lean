import Dxgmx.Fs.ReadGuard

open Library

namespace Dxgmx

/-- Where each descriptor stands in its file. -/
abbrev Positions := Fd → Pid → Int

def Positions.set (pos : Positions) (fd : Fd) (pid : Pid) (position : Int) : Positions :=
  fun other owner => if other = fd ∧ owner = pid then position else pos other owner

/-- Where a seek goes, if there is such a place and `off_t` holds it. -/
def seekTarget (size : BitVec 32) (position : Int) (off whence : BitVec 32) : Option Int :=
  (if whence = 1 then some off.toInt
    else if whence = 2 then some (position + off.toInt)
    else if whence = 3 then some (size.toNat + off.toInt)
    else none).filter fun target => 0 ≤ target ∧ target < 2 ^ 31

/-- The bytes that are there to be read at a position. -/
def bytesRead (size n : BitVec 32) (position : Int) : Int :=
  if size.toNat ≤ position then 0 else min (n.toNat : Int) (size.toNat - position)

/-- The drivers' answers to one read, for files of given sizes. -/
structure ReadAnswers (size : VirtualNodeRef → BitVec 32) where
  files : VirtualNodeRef → OpenFile
  access : UserAccess
  sized : ∀ vnode, (files vnode).size = size vnode

inductive OffsetCall (size : VirtualNodeRef → BitVec 32)
  | read (answers : ReadAnswers size) (fd : Fd) (buf : Ptr) (n : BitVec 32) (proc : Process)
  | lseek (fd : Fd) (off whence : BitVec 32) (proc : Process)

def FileSystems.sized (base : FileSystems Memory) (size : VirtualNodeRef → BitVec 32) :
    FileSystems Memory := { base with size := fun vnode _ => size vnode }

variable {size : VirtualNodeRef → BitVec 32}

def OffsetCall.run (base : FileSystems Memory) (vfs : Vfs Memory) :
    OffsetCall size → Int × Vfs Memory
  | .read answers fd buf n proc =>
    vfsRead ((base.sized size).withFiles answers.files answers.access) fd buf n proc vfs
  | .lseek fd off whence proc => vfsLseek (base.sized size) fd off whence proc vfs

/-- A read of a readable file that the driver does not refuse. -/
def Served (base : FileSystems Memory) (answers : ReadAnswers size) (sysfd : FileDescriptor)
    (n : BitVec 32) (vfs : Vfs Memory) : Prop :=
  base.mode sysfd.vnode vfs.world &&& 0x4000 = 0 ∧ sysfd.flags &&& 0x1 ≠ 0 ∧
    ¬ (answers.files sysfd.vnode).Refuses n sysfd.off

open Classical in
/-- The positions after a call. -/
noncomputable def moved (base : FileSystems Memory) (vfs : Vfs Memory) (pos : Positions) :
    OffsetCall size → Positions
  | .read answers fd _ n proc =>
    match vfsFdtGetSysfd fd proc.pid vfs.fdt with
    | none => pos
    | some sysfd =>
      if 0 ≤ fd.toInt ∧ Served base answers sysfd n vfs then
        pos.set fd proc.pid
          (pos fd proc.pid + bytesRead (size sysfd.vnode) n (pos fd proc.pid))
      else pos
  | .lseek fd off whence proc =>
    match vfsFdtGetSysfd fd proc.pid vfs.fdt with
    | none => pos
    | some sysfd =>
      if 0 ≤ fd.toInt then
        pos.set fd proc.pid
          ((seekTarget (size sysfd.vnode) (pos fd proc.pid) off whence).getD (pos fd proc.pid))
      else pos

/-- The offset of every descriptor is its position. -/
structure Tracked (fdt : SysFdHashtable) (pos : Positions) : Prop where
  wellFormed : FdtWellFormed fdt
  fits : ∀ fd pid sysfd, vfsFdtGetSysfd fd pid fdt = some sysfd →
    0 ≤ pos fd pid ∧ sysfd.off.toInt = pos fd pid

/-- A seek returns where it goes, or a negative errno. -/
def SeekAnswered (vfs : Vfs Memory) (pos : Positions) (fd : Fd) (off whence : BitVec 32)
    (proc : Process) (size : VirtualNodeRef → BitVec 32) (st : Int) : Prop :=
  match vfsFdtGetSysfd fd proc.pid vfs.fdt with
  | none => st < 0
  | some sysfd =>
    if 0 ≤ fd.toInt then
      match seekTarget (size sysfd.vnode) (pos fd proc.pid) off whence with
      | none => st < 0
      | some target => st = target
    else st < 0

/-- After the call the offsets are the positions, and a seek says which it is. -/
structure CallTracked (base : FileSystems Memory) (vfs : Vfs Memory) (pos : Positions)
    (call : OffsetCall size) : Prop where
  tracked : Tracked (call.run base vfs).2.fdt (moved base vfs pos call)
  answered : ∀ fd off whence proc, call = .lseek fd off whence proc →
    SeekAnswered vfs pos fd off whence proc size (call.run base vfs).1

/-- A read stays below 2 GiB, and a seek from the end of a file below 4 GiB. -/
def InReach (base : FileSystems Memory) (vfs : Vfs Memory) : OffsetCall size → Prop
  | .read answers fd _ n proc => ∀ sysfd, 0 ≤ fd.toInt →
    vfsFdtGetSysfd fd proc.pid vfs.fdt = some sysfd → Served base answers sysfd n vfs →
    sysfd.off.toNat + (answers.files sysfd.vnode).count n sysfd.off < 2 ^ 31
  | .lseek fd off whence proc => ∀ sysfd, 0 ≤ fd.toInt →
    vfsFdtGetSysfd fd proc.pid vfs.fdt = some sysfd → whence = 3 →
    (size sysfd.vnode).toNat + off.toInt < 2 ^ 32

section Offsets

variable {fdt : SysFdHashtable} {pos : Positions} {fd : Fd} {pid : Pid} {sysfd : FileDescriptor}

theorem toNat_of_nonneg {x : BitVec 32} (nonneg : 0 ≤ x.toInt) :
    (x.toNat : Int) = x.toInt ∧ x.toNat < 2 ^ 31 := by
  rw [BitVec.toInt_eq_toNat_cond] at nonneg ⊢
  have := x.isLt
  split at nonneg <;> omega

theorem Positions.set_self (pos : Positions) (fd : Fd) (pid : Pid) :
    pos.set fd pid (pos fd pid) = pos := by
  funext other owner
  unfold Positions.set
  split
  · rename_i same
    rw [same.1, same.2]
  · rfl

theorem tracked_store (tracked : Tracked fdt pos) (found : vfsFdtGetSysfd fd pid fdt = some sysfd)
    (off : BitVec 32) (position : Int) :
    Tracked (vfsFdtStore { sysfd with off := off } fdt) (pos.set fd pid position) ↔
      0 ≤ position ∧ off.toInt = position := by
  have wf := tracked.wellFormed
  obtain ⟨rfl, rfl⟩ := wf.named fd pid sysfd found
  have stored := vfsFdtStore_get wf { sysfd with off := off }
  constructor
  · intro after
    have here := after.fits sysfd.fd sysfd.pid { sysfd with off := off } ((stored _ _ _).mpr (by
      rw [if_pos ⟨rfl, rfl⟩]
      exact ⟨rfl, sysfd, found⟩))
    unfold Positions.set at here
    rw [if_pos ⟨rfl, rfl⟩] at here
    exact here
  · intro here
    refine ⟨wf.store _, fun other owner held there => ?_⟩
    rw [stored] at there
    unfold Positions.set
    split at there
    · rename_i same
      rw [if_pos same, there.1]
      exact here
    · rename_i different
      rw [if_neg different]
      exact tracked.fits other owner held there

end Offsets

section Seek

variable {fs : FileSystems Memory} {vfs : Vfs Memory} {sysfd : FileDescriptor} {position : Int}
  {off whence : BitVec 32}

/-- Below 4 GiB the sum of a size and an offset is right, or shows as a negative number. -/
theorem end_sum (size off : BitVec 32) (fits : (size.toNat : Int) + off.toInt < 2 ^ 32) :
    (0 ≤ (size.toNat : Int) + off.toInt ∧ (size.toNat : Int) + off.toInt < 2 ^ 31 ∧
        (size + off).toInt = size.toNat + off.toInt) ∨
      (¬ (0 ≤ (size.toNat : Int) + off.toInt ∧ (size.toNat : Int) + off.toInt < 2 ^ 31) ∧
        (size + off).toInt < 0) := by
  rw [BitVec.toInt_eq_toNat_cond (size + off), BitVec.toNat_add]
  rw [BitVec.toInt_eq_toNat_cond off] at fits ⊢
  have first := size.isLt
  have second := off.isLt
  split at fits <;> split <;> omega

theorem end_wraps (size off : BitVec 32) (past : 2 ^ 32 ≤ (size.toNat : Int) + off.toInt) :
    0 ≤ (size + off).toInt := by
  rw [BitVec.toInt_eq_toNat_cond (size + off), BitVec.toNat_add]
  rw [BitVec.toInt_eq_toNat_cond off] at past
  have first := size.isLt
  have second := off.isLt
  split at past <;> split <;> omega

/-- The sum of an offset that is not negative and another is right, or shows as negative. -/
theorem current_sum (here off : BitVec 32) (nonneg : 0 ≤ here.toInt) :
    (0 ≤ here.toInt + off.toInt ∧ here.toInt + off.toInt < 2 ^ 31 ∧
        (here + off).toInt = here.toInt + off.toInt) ∨
      (¬ (0 ≤ here.toInt + off.toInt ∧ here.toInt + off.toInt < 2 ^ 31) ∧
        (here + off).toInt < 0) := by
  obtain ⟨same, small⟩ := toNat_of_nonneg nonneg
  rw [← same]
  refine end_sum here off ?_
  rw [BitVec.toInt_eq_toNat_cond off]
  have := off.isLt
  split <;> omega

theorem vfsLseekSysfd_current (fs : FileSystems Memory) (vfs : Vfs Memory) :
    vfsLseekSysfd fs sysfd off 2 vfs =
      if (sysfd.off + off).toInt < 0 then (if off.toInt < 0 then -22 else -39, vfs)
      else
        ((sysfd.off + off).toInt,
          { vfs with fdt := vfsFdtStore { sysfd with off := sysfd.off + off } vfs.fdt }) :=
  rfl

theorem vfsLseekSysfd_end (fs : FileSystems Memory) (vfs : Vfs Memory) :
    vfsLseekSysfd fs sysfd off 3 vfs =
      if (fs.size sysfd.vnode vfs.world + off).toInt < 0 then
        (if off.toInt < 0 then -22 else -39, vfs)
      else
        ((fs.size sysfd.vnode vfs.world + off).toInt,
          { vfs with
            fdt := vfsFdtStore { sysfd with off := fs.size sysfd.vnode vfs.world + off } vfs.fdt }) :=
  rfl

theorem overflow_negative (off : BitVec 32) : (if off.toInt < 0 then -22 else -39 : Int) < 0 := by
  split <;> decide

theorem seekTarget_some {size : BitVec 32} (target : Int)
    (goes : (if whence = 1 then some off.toInt
      else if whence = 2 then some (position + off.toInt)
      else if whence = 3 then some (size.toNat + off.toInt)
      else none) = some target) :
    seekTarget size position off whence =
      if 0 ≤ target ∧ target < 2 ^ 31 then some target else none := by
  unfold seekTarget
  rw [goes, Option.filter_some]
  simp only [decide_eq_true_eq]

/-- A seek goes to its target and says so, or fails and leaves the descriptor alone. -/
theorem vfsLseekSysfd_seeks (nonneg : 0 ≤ sysfd.off.toInt)
    (fits : whence = 3 → ((fs.size sysfd.vnode vfs.world).toNat : Int) + off.toInt < 2 ^ 32) :
    (∃ res : BitVec 32, seekTarget (fs.size sysfd.vnode vfs.world) sysfd.off.toInt off whence =
        some res.toInt ∧ 0 ≤ res.toInt ∧ vfsLseekSysfd fs sysfd off whence vfs =
          (res.toInt, { vfs with fdt := vfsFdtStore { sysfd with off := res } vfs.fdt })) ∨
      (seekTarget (fs.size sysfd.vnode vfs.world) sysfd.off.toInt off whence = none ∧
        ∃ st < 0, vfsLseekSysfd fs sysfd off whence vfs = (st, vfs)) := by
  by_cases set : whence = 1
  · subst set
    have bounded := BitVec.toInt_lt (x := off)
    rw [seekTarget_some off.toInt rfl]
    by_cases negative : off.toInt < 0
    · exact .inr ⟨if_neg (by omega), -22, by decide, if_pos negative⟩
    · exact .inl ⟨off, if_pos (by omega), by omega, if_neg negative⟩
  · by_cases cur : whence = 2
    · subst cur
      rw [seekTarget_some (sysfd.off.toInt + off.toInt) rfl]
      rw [vfsLseekSysfd_current]
      rcases current_sum sysfd.off off nonneg with ⟨low, high, sum⟩ | ⟨outside, negative⟩
      · left
        refine ⟨sysfd.off + off, ?_, by omega, if_neg (by omega)⟩
        rw [sum, if_pos ⟨low, high⟩]
      · exact .inr ⟨if_neg outside, _, overflow_negative off, if_pos negative⟩
    · by_cases fromEnd : whence = 3
      · subst fromEnd
        rw [seekTarget_some (((fs.size sysfd.vnode vfs.world).toNat : Int) + off.toInt) rfl]
        rw [vfsLseekSysfd_end]
        rcases end_sum (fs.size sysfd.vnode vfs.world) off (fits rfl) with
          ⟨low, high, sum⟩ | ⟨outside, negative⟩
        · left
          refine ⟨fs.size sysfd.vnode vfs.world + off, ?_, by omega, if_neg (by omega)⟩
          rw [sum, if_pos ⟨low, high⟩]
        · exact .inr ⟨if_neg outside, _, overflow_negative off, if_pos negative⟩
      · right
        unfold seekTarget vfsLseekSysfd
        rw [if_neg set, if_neg cur, if_neg fromEnd, if_neg set, if_neg cur, if_neg fromEnd]
        exact ⟨rfl, -22, by decide, rfl⟩

end Seek

section Read

variable {base : FileSystems Memory} {answers : ReadAnswers size} {vfs : Vfs Memory}
  {sysfd : FileDescriptor} {fd : Fd} {buf : Ptr} {n : BitVec 32} {proc : Process} {pos : Positions}

theorem bytesRead_count (file : OpenFile) {off : BitVec 32} (nonneg : 0 ≤ off.toInt) :
    bytesRead file.size n off.toInt = file.count n off := by
  obtain ⟨same, small⟩ := toNat_of_nonneg nonneg
  unfold bytesRead OpenFile.count
  rw [← same]
  by_cases past : file.size ≤ off
  · rw [if_pos past, if_pos]
    · rfl
    · exact Int.ofNat_le.mpr past
  · have before : off.toNat < file.size.toNat := Nat.lt_of_not_le past
    rw [if_neg past, if_neg (by omega), BitVec.toNat_sub]
    have bounded := file.size.isLt
    omega

theorem vfsReadSysfd_fdt (fs : FileSystems Memory) {rd : Int} {world : Memory}
    (file : fs.mode sysfd.vnode vfs.world &&& 0x4000 = 0) (readable : sysfd.flags &&& 0x1 ≠ 0)
    (result : fs.opsRead sysfd.vnode buf n sysfd.off vfs.world = (rd, world)) :
    (vfsReadSysfd fs sysfd buf n vfs).2.fdt =
      if n = 0 ∨ rd < 0 then vfs.fdt
      else vfsFdtStore { sysfd with off := sysfd.off + BitVec.ofInt 32 rd } vfs.fdt := by
  unfold vfsReadSysfd
  rw [if_neg (not_not.mpr file), if_neg readable]
  by_cases nothing : n = 0
  · rw [if_pos nothing, if_pos (.inl nothing)]
  · rw [if_neg nothing, result]
    dsimp only
    by_cases negative : rd < 0
    · rw [if_pos negative, if_pos (.inr negative)]
    · rw [if_neg negative, if_neg (not_or.mpr ⟨nothing, negative⟩)]

theorem vfsReadSysfd_unserved (buf : Ptr) (unserved : ¬ Served base answers sysfd n vfs) :
    (vfsReadSysfd ((base.sized size).withFiles answers.files answers.access) sysfd buf n
      vfs).2.fdt = vfs.fdt := by
  by_cases file : base.mode sysfd.vnode vfs.world &&& 0x4000 = 0
  · by_cases readable : sysfd.flags &&& 0x1 = 0
    · rw [vfsReadSysfd_unreadable ((base.sized size).withFiles answers.files answers.access) buf
        file readable]
    · have refuses : (answers.files sysfd.vnode).Refuses n sysfd.off := by
        by_contra serves
        exact unserved ⟨file, readable, serves⟩
      obtain ⟨st, negative, result⟩ := read_refused answers.access buf vfs.world refuses
      rw [vfsReadSysfd_fdt ((base.sized size).withFiles answers.files answers.access) file readable
        result, if_pos (.inr negative)]
  · rw [vfsReadSysfd_directory ((base.sized size).withFiles answers.files answers.access) buf file]

/-- The count comes back as a signed number, and is added to the offset if that is not negative. -/
theorem vfsReadSysfd_served (buf : Ptr) (served : Served base answers sysfd n vfs) :
    (vfsReadSysfd ((base.sized size).withFiles answers.files answers.access) sysfd buf n
        vfs).2.fdt =
      if n = 0 ∨ 2 ^ 31 ≤ (answers.files sysfd.vnode).count n sysfd.off then vfs.fdt
      else
        vfsFdtStore { sysfd with
          off := sysfd.off + BitVec.ofNat 32 ((answers.files sysfd.vnode).count n sysfd.off) }
          vfs.fdt := by
  obtain ⟨file, readable, serves⟩ := served
  have result : ∃ world, (answers.files sysfd.vnode).read answers.access buf n sysfd.off vfs.world =
      ((BitVec.ofNat 32 ((answers.files sysfd.vnode).count n sysfd.off)).toInt, world) := by
    by_cases none : (answers.files sysfd.vnode).count n sysfd.off = 0
    · rw [read_nothing answers.access buf vfs.world none, none]
      exact ⟨_, rfl⟩
    · obtain ⟨bytes, copied⟩ := read_copies answers.access buf vfs.world
        (Nat.pos_of_ne_zero none) serves
      exact ⟨_, copied⟩
  obtain ⟨world, result⟩ := result
  rw [vfsReadSysfd_fdt ((base.sized size).withFiles answers.files answers.access) file readable
    result, BitVec.ofInt_toInt]
  simp only [toInt_negative (count_lt (answers.files sysfd.vnode) n sysfd.off)]

theorem vfsRead_fdt {fs : FileSystems Memory} (valid : 0 ≤ fd.toInt)
    (found : vfsFdtGetSysfd fd proc.pid vfs.fdt = some sysfd) :
    (vfsRead fs fd buf n proc vfs).2.fdt = (vfsReadSysfd fs sysfd buf n vfs).2.fdt := by
  unfold vfsRead
  rw [if_neg (by omega), found]
  rfl

theorem vfsRead_absent {fs : FileSystems Memory}
    (absent : 0 ≤ fd.toInt → vfsFdtGetSysfd fd proc.pid vfs.fdt = none) :
    (vfsRead fs fd buf n proc vfs).2.fdt = vfs.fdt := by
  unfold vfsRead
  by_cases valid : 0 ≤ fd.toInt
  · rw [if_neg (by omega), absent valid]
    rfl
  · rw [if_pos (by omega)]

theorem tracked_advance {fdt : SysFdHashtable} {pid : Pid} {count : Nat}
    (tracked : Tracked fdt pos) (found : vfsFdtGetSysfd fd pid fdt = some sysfd)
    (nothing : n = 0 → count = 0) :
    Tracked (if n = 0 ∨ 2 ^ 31 ≤ count then fdt
        else vfsFdtStore { sysfd with off := sysfd.off + BitVec.ofNat 32 count } fdt)
      (pos.set fd pid (sysfd.off.toInt + count)) ↔ sysfd.off.toNat + count < 2 ^ 31 := by
  obtain ⟨nonneg, here⟩ := tracked.fits fd pid sysfd found
  obtain ⟨same, small⟩ := toNat_of_nonneg (by omega : 0 ≤ sysfd.off.toInt)
  by_cases none : n = 0
  · rw [if_pos (.inl none), nothing none]
    simp only [Nat.cast_zero, add_zero]
    rw [here, Positions.set_self]
    exact ⟨fun _ => small, fun _ => tracked⟩
  · by_cases large : 2 ^ 31 ≤ count
    · rw [if_pos (.inr large)]
      refine ⟨fun after => ?_, fun short => by omega⟩
      have moved := (after.fits fd pid sysfd found).2
      unfold Positions.set at moved
      rw [if_pos ⟨rfl, rfl⟩] at moved
      omega
    · rw [if_neg (not_or.mpr ⟨none, large⟩), tracked_store tracked found]
      have sum : (sysfd.off + BitVec.ofNat 32 count).toNat = sysfd.off.toNat + count := by
        rw [BitVec.toNat_add, BitVec.toNat_ofNat]
        omega
      rw [BitVec.toInt_eq_toNat_cond (sysfd.off + _), sum]
      split <;> omega

/-- A read keeps the offset right where it stays below 2 GiB. -/
theorem read_tracked (tracked : Tracked vfs.fdt pos) :
    Tracked ((OffsetCall.read answers fd buf n proc).run base vfs).2.fdt
        (moved base vfs pos (.read answers fd buf n proc)) ↔
      InReach base vfs (.read answers fd buf n proc) := by
  unfold OffsetCall.run InReach
  dsimp only
  by_cases valid : 0 ≤ fd.toInt
  · unfold moved
    cases found : vfsFdtGetSysfd fd proc.pid vfs.fdt with
    | none =>
      rw [vfsRead_absent fun _ => found]
      dsimp only
      rw [found]
      exact ⟨fun _ => nofun, fun _ => tracked⟩
    | some sysfd =>
      rw [vfsRead_fdt valid found]
      dsimp only
      rw [found]
      dsimp only
      obtain ⟨nonneg, here⟩ := tracked.fits fd proc.pid sysfd found
      by_cases served : Served base answers sysfd n vfs
      · rw [if_pos ⟨valid, served⟩, vfsReadSysfd_served buf served, ← answers.sized, ← here,
          bytesRead_count _ (by omega)]
        have once : (∀ other, 0 ≤ fd.toInt → some sysfd = some other →
            Served base answers other n vfs →
              other.off.toNat + (answers.files other.vnode).count n other.off < 2 ^ 31) ↔
            sysfd.off.toNat + (answers.files sysfd.vnode).count n sysfd.off < 2 ^ 31 := by
          refine ⟨fun each => each sysfd valid rfl served, fun short other _ same _ => ?_⟩
          cases same
          exact short
        rw [once]
        exact tracked_advance tracked found fun none => by
          rw [none]
          by_contra some_
          exact (count_pos.mp (Nat.pos_of_ne_zero some_)) (.inl rfl)
      · rw [if_neg (fun both => served both.2), vfsReadSysfd_unserved buf served]
        refine ⟨fun _ other _ there serves => ?_, fun _ => tracked⟩
        cases there
        exact absurd serves served
  · have unmoved : moved base vfs pos (.read answers fd buf n proc) = pos := by
      unfold moved
      dsimp only
      split
      · rfl
      · exact if_neg fun both => valid both.1
    rw [vfsRead_absent fun nonneg => absurd nonneg valid, unmoved]
    exact ⟨fun _ _ nonneg => absurd nonneg valid, fun _ => tracked⟩

end Read

section Calls

variable {base : FileSystems Memory} {vfs : Vfs Memory} {pos : Positions}

/-- Where the descriptor is found, a seek keeps the offset right and says so unless a sum with the
    size of the file is 4 GiB or more. -/
theorem vfsLseekSysfd_tracked {fd : Fd} {pid : Pid} {sysfd : FileDescriptor}
    (tracked : Tracked vfs.fdt pos) (found : vfsFdtGetSysfd fd pid vfs.fdt = some sysfd)
    (off whence : BitVec 32) :
    (Tracked (vfsLseekSysfd (base.sized size) sysfd off whence vfs).2.fdt (pos.set fd pid
        ((seekTarget (size sysfd.vnode) (pos fd pid) off whence).getD (pos fd pid))) ∧
      match seekTarget (size sysfd.vnode) (pos fd pid) off whence with
      | none => (vfsLseekSysfd (base.sized size) sysfd off whence vfs).1 < 0
      | some target => (vfsLseekSysfd (base.sized size) sysfd off whence vfs).1 = target) ↔
      (whence = 3 → ((size sysfd.vnode).toNat : Int) + off.toInt < 2 ^ 32) := by
  obtain ⟨nonneg, here⟩ := tracked.fits fd pid sysfd found
  by_cases fits : whence = 3 → ((size sysfd.vnode).toNat : Int) + off.toInt < 2 ^ 32
  · refine iff_of_true ?_ fits
    rcases @vfsLseekSysfd_seeks (base.sized size) vfs sysfd off whence (by omega) fits with
      ⟨res, target, low, result⟩ | ⟨target, st, negative, result⟩
    all_goals
      rw [here] at target
      change seekTarget (size sysfd.vnode) _ off whence = _ at target
      rw [target, result]
      dsimp only [Option.getD]
    · exact ⟨(tracked_store tracked found res res.toInt).mpr ⟨low, rfl⟩, rfl⟩
    · rw [Positions.set_self]
      exact ⟨tracked, negative⟩
  · refine iff_of_false (fun both => ?_) fits
    obtain ⟨fromEnd, past⟩ := Classical.not_imp.mp fits
    subst fromEnd
    have outside : seekTarget (size sysfd.vnode) (pos fd pid) off 3 = none := by
      rw [seekTarget_some (((size sysfd.vnode).toNat : Int) + off.toInt) rfl]
      exact if_neg (by omega)
    have answered := both.2
    rw [outside, vfsLseekSysfd_end] at answered
    have wrapped := end_wraps (size sysfd.vnode) off (by omega)
    change 0 ≤ ((base.sized size).size sysfd.vnode vfs.world + off).toInt at wrapped
    rw [if_neg (by omega)] at answered
    exact absurd answered (by dsimp only; omega)

theorem lseek_tracked {fd : Fd} {off whence : BitVec 32} {proc : Process}
    (tracked : Tracked vfs.fdt pos) :
    (Tracked (vfsLseek (base.sized size) fd off whence proc vfs).2.fdt
        (moved base vfs pos (.lseek fd off whence proc : OffsetCall size)) ∧
      SeekAnswered vfs pos fd off whence proc size
        (vfsLseek (base.sized size) fd off whence proc vfs).1) ↔
      InReach base vfs (.lseek fd off whence proc : OffsetCall size) := by
  unfold moved SeekAnswered InReach vfsLseek
  dsimp only
  by_cases valid : 0 ≤ fd.toInt
  · rw [if_neg (by omega)]
    cases found : vfsFdtGetSysfd fd proc.pid vfs.fdt with
    | none => exact ⟨fun _ => nofun, fun _ => ⟨tracked, by dsimp only; decide⟩⟩
    | some sysfd =>
      dsimp only
      rw [if_pos valid, if_pos valid]
      refine (vfsLseekSysfd_tracked tracked found off whence).trans ⟨fun reach other _ same => ?_,
        fun reach => reach sysfd valid rfl⟩
      cases same
      exact reach
  · rw [if_pos (by omega)]
    refine ⟨fun _ _ nonneg => absurd nonneg valid, fun _ => ?_⟩
    cases vfsFdtGetSysfd fd proc.pid vfs.fdt with
    | none => exact ⟨tracked, by dsimp only; decide⟩
    | some sysfd =>
      dsimp only
      rw [if_neg valid, if_neg valid]
      exact ⟨tracked, by decide⟩

theorem callTracked_iff (tracked : Tracked vfs.fdt pos) (call : OffsetCall size) :
    CallTracked base vfs pos call ↔ InReach base vfs call := by
  cases call with
  | read answers fd buf n proc =>
    rw [← read_tracked tracked]
    exact ⟨fun all => all.tracked, fun after => ⟨after, nofun⟩⟩
  | lseek fd off whence proc =>
    rw [← lseek_tracked tracked]
    refine ⟨fun all => ⟨all.tracked, all.answered _ _ _ _ rfl⟩, fun both => ⟨both.1, ?_⟩⟩
    intro _ _ _ _ same
    cases same
    exact both.2

end Calls

/-- One call, with the positions it leads to. -/
def OffsetStep (base : FileSystems Memory) (s : Vfs Memory × Positions) (call : OffsetCall size)
    (s' : Vfs Memory × Positions) : Prop :=
  s' = ((call.run base s.1).2, moved base s.1 s.2 call)

/-- In a run whose calls are all in reach the offsets are the positions after every call, and these
    are the only runs of which it is true. -/
theorem offsets_tracked (base : FileSystems Memory) (calls : List (OffsetCall size))
    (s s' : Vfs Memory × Positions) (start : Tracked s.1.fdt s.2) :
    (Run (fun s call s' => OffsetStep base s call s' ∧ InReach base s.1 call) s calls s' →
        Tracked s'.1.fdt s'.2) ∧
      (Run (fun s call s' => OffsetStep base s call s' ∧ InReach base s.1 call) s calls s' ↔
        Run (fun s call s' => OffsetStep base s call s' ∧ CallTracked base s.1 s.2 call) s calls
          s') := by
  have reached : ∀ s (call : OffsetCall size) s', OffsetStep base s call s' ∧
      InReach base s.1 call → Tracked s.1.fdt s.2 → Tracked s'.1.fdt s'.2 := by
    rintro s call _ ⟨rfl, reach⟩ before
    exact ((callTracked_iff before call).mpr reach).tracked
  have right : ∀ s (call : OffsetCall size) s', OffsetStep base s call s' ∧
      CallTracked base s.1 s.2 call → Tracked s.1.fdt s.2 → Tracked s'.1.fdt s'.2 := by
    rintro s call _ ⟨rfl, after⟩ _
    exact after.tracked
  refine ⟨fun run => run.invariant (fun s => Tracked s.1.fdt s.2) reached start, ?_, ?_⟩
  · intro run
    refine (run.strengthen (fun s => Tracked s.1.fdt s.2) reached start).mono ?_
    rintro s call s' ⟨⟨step, reach⟩, before, -⟩
    exact ⟨step, (callTracked_iff before call).mpr reach⟩
  · intro run
    refine (run.strengthen (fun s => Tracked s.1.fdt s.2) right start).mono ?_
    rintro s call s' ⟨⟨step, after⟩, before, -⟩
    exact ⟨step, (callTracked_iff before call).mp after⟩

theorem oneDescriptor_tracked : Tracked oneDescriptor fun _ _ => 0 := by
  have some_ : (vfsFdtNewSysfd ⟨true, true, true⟩ 0 1 (HashTable.init sha1OfKeys)).1.isSome := by
    decide
  unfold oneDescriptor
  rcases made : vfsFdtNewSysfd ⟨true, true, true⟩ 0 1 (HashTable.init sha1OfKeys) with ⟨_ | sysfd, fdt⟩
  · rw [made] at some_
    cases some_
  · have wf := (fdtWellFormed_init sha1OfKeys).newSysfd made
    refine ⟨wf.store _, fun fd pid found there => ⟨le_refl 0, ?_⟩⟩
    rw [vfsFdtStore_get wf] at there
    split at there
    · rw [there.1]
      rfl
    · rename_i other
      rw [vfsFdtNewSysfd_get (fdtWellFormed_init sha1OfKeys) made, if_neg other,
        vfsFdtGetSysfd_init] at there
      cases there

def tenBytes : ReadAnswers fun _ => 10 where
  files _ := .ramfs ⟨10, fun m => BitVec.ofNat 8 m⟩
  access := ⟨fun _ => true, fun _ => true⟩
  sized _ := rfl

def offsetProcess : Process := ⟨1, [true, false, false, false], 1, false, 0⟩

/-- Read four bytes, go to three bytes before the end, and one on. -/
def readAndSeek : List (OffsetCall fun _ => 10) :=
  [.read tenBytes 0 0x1000 4 offsetProcess, .lseek 0 (-3) 3 offsetProcess,
    .lseek 0 1 2 offsetProcess]

theorem offsets_tracked_readAndSeek :
    ∃ s' : Vfs Memory × Positions,
      Run (fun s call s' => OffsetStep plainFiles s call s' ∧ CallTracked plainFiles s.1 s.2 call)
        (freshVfs oneDescriptor (fun _ => 0) [], fun _ _ => 0) readAndSeek s' ∧
      Tracked s'.1.fdt s'.2 ∧ s'.2 0 1 = 8 := by
  have first : InReach plainFiles (freshVfs oneDescriptor (fun _ => 0) [])
      (.read tenBytes 0 0x1000 4 offsetProcess) := by
    intro sysfd _ there _
    obtain ⟨-, here⟩ := oneDescriptor_tracked.fits 0 1 sysfd there
    have few := count_le (tenBytes.files sysfd.vnode) 4 sysfd.off
    obtain ⟨same, -⟩ := toNat_of_nonneg (le_of_eq here.symm)
    have four : (4 : BitVec 32).toNat = 4 := rfl
    omega
  have second : ∀ vfs, InReach plainFiles vfs
      (.lseek 0 (-3) 3 offsetProcess : OffsetCall fun _ => 10) := by
    intro _ _ _ _ _
    have below : (10 : BitVec 32).toNat + (-3 : BitVec 32).toInt < 2 ^ 32 := by decide
    exact below
  have third : ∀ vfs, InReach plainFiles vfs
      (.lseek 0 1 2 offsetProcess : OffsetCall fun _ => 10) := by
    intro _ _ _ _ fromEnd
    exact absurd fromEnd (by decide)
  have run : ∃ s', Run
      (fun s call s' => OffsetStep plainFiles s call s' ∧ InReach plainFiles s.1 call)
      (freshVfs oneDescriptor (fun _ => 0) [], fun _ _ => 0) readAndSeek s' ∧
      vfsFdtGetSysfd 0 1 s'.1.fdt = some ⟨0, 1, 0x1, 8, 7⟩ := by
    refine ⟨_, (((Run.refl _).snoc ⟨rfl, first⟩).snoc ⟨rfl, second _⟩).snoc ⟨rfl, third _⟩, ?_⟩
    decide
  obtain ⟨s', run, stored⟩ := run
  have both := offsets_tracked plainFiles readAndSeek
    (freshVfs oneDescriptor (fun _ => 0) [], fun _ _ => 0) s' oneDescriptor_tracked
  have after := both.1 run
  exact ⟨s', both.2.mp run, after, ((after.fits 0 1 _ stored).2).symm⟩

/-- A seek of 6 from the end of a file of 4 GiB - 1 bytes. -/
def seekPastEnd : OffsetCall fun _ => 0xffffffff := .lseek 0 6 3 offsetProcess

/-- It comes out at position 5. -/
theorem not_callTracked_seekPastEnd :
    Tracked (freshVfs oneDescriptor (fun _ => 0) []).fdt (fun _ _ => 0) ∧
      (seekPastEnd.run plainFiles (freshVfs oneDescriptor (fun _ => 0) [])).1 = 5 ∧
        ¬ CallTracked plainFiles (freshVfs oneDescriptor (fun _ => 0) []) (fun _ _ => 0)
          seekPastEnd := by
  have found : vfsFdtGetSysfd 0 1 oneDescriptor = some ⟨0, 1, 0x1, 0, 7⟩ := by decide
  refine ⟨oneDescriptor_tracked, by decide, fun after => ?_⟩
  have reach := (callTracked_iff oneDescriptor_tracked seekPastEnd).mp after
  have fits := reach ⟨0, 1, 0x1, 0, 7⟩ (by decide) found rfl
  revert fits
  decide

end Dxgmx
