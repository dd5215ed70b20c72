import Dxgmx.Storage.BlkdevmPartitions
import Dxgmx.Storage.TrackedDrive

open Library

namespace Dxgmx

section

variable {σ : Type} (io : Machine σ)

/-- The parent is an ATA disk, so its `read` is `atapio_read`. -/
def partitionGenericRead (fuel : Nat) (parent : AtaBlockDevice) (blkdev : MountableBlockDevice)
    (lba n : BitVec 64) (dest : Nat → Byte) (s : σ) : Exec (Int × σ × (Nat → Byte)) :=
  atapioRead io fuel parent (blkdev.offset + lba) n dest s

def partitionGenericWrite (fuel : Nat) (parent : AtaBlockDevice) (blkdev : MountableBlockDevice)
    (lba n : BitVec 64) (src : Nat → Byte) (s : σ) : Exec (Int × σ) :=
  atapioWrite io fuel parent (blkdev.offset + lba) n src s

/-- A call that is made through a mountable device. -/
structure PartitionCall where
  write : Bool
  lba : BitVec 64
  n : BitVec 64
  buffer : Nat → Byte

def PartitionCall.perform (fuel : Nat) (parent : AtaBlockDevice) (blkdev : MountableBlockDevice)
    (call : PartitionCall) (s : σ) : Exec (Int × σ) :=
  if call.write then partitionGenericWrite io fuel parent blkdev call.lba call.n call.buffer s
  else do
    let (st, s, _) ← partitionGenericRead io fuel parent blkdev call.lba call.n call.buffer s
    pure (st, s)

def performAll (fuel : Nat) (parent : AtaBlockDevice) (blkdev : MountableBlockDevice) :
    List PartitionCall → σ → Exec (List Int × σ)
  | [], s => .ok ([], s)
  | call :: rest, s => do
    let (st, s) ← call.perform io fuel parent blkdev s
    let (sts, s) ← performAll fuel parent blkdev rest s
    pure (st :: sts, s)

end

/-- The call does not reach beyond the end of the partition. -/
def PartitionCall.Inside (blkdev : MountableBlockDevice) (call : PartitionCall) : Prop :=
  call.lba.toNat + call.n.toNat ≤ blkdev.sectorCount.toNat

/-- The parent takes the sectors for sectors outside of itself. -/
def PartitionCall.Refused (parent : AtaBlockDevice) (blkdev : MountableBlockDevice)
    (call : PartitionCall) : Prop :=
  atapioIsValidRange (blkdev.offset + call.lba) call.n parent = false

instance decidableInside (blkdev : MountableBlockDevice) (call : PartitionCall) :
    Decidable (call.Inside blkdev) :=
  inferInstanceAs (Decidable (_ ≤ _))

instance decidableRefused (parent : AtaBlockDevice) (blkdev : MountableBlockDevice)
    (call : PartitionCall) : Decidable (call.Refused parent blkdev) :=
  inferInstanceAs (Decidable (_ = false))

/-- Only sectors of the partition are touched. -/
def TrackedDrive.Within (blkdev : MountableBlockDevice) (t : TrackedDrive) : Prop :=
  ∀ sector ∈ t.touched, blkdev.offset.toNat ≤ sector ∧
    sector < blkdev.offset.toNat + blkdev.sectorCount.toNat

/-- The calls stay in the partition, and those that reach outside of it fail. -/
def Confined (blkdev : MountableBlockDevice) (calls : List PartitionCall)
    (result : Exec (List Int × TrackedDrive)) : Prop :=
  ∃ sts t, result = .ok (sts, t) ∧ t.Within blkdev ∧
    List.Forall₂ (fun call st => ¬ call.Inside blkdev → st < 0) calls sts

variable {parent : AtaBlockDevice} {blkdev : MountableBlockDevice} {call : PartitionCall}
variable {calls : List PartitionCall} {t t' : TrackedDrive} {fuel : Nat} {st : Int}

theorem atapioIsValidRange_inside {lba sectors : BitVec 64} {dev : AtaBlockDevice}
    (valid : atapioIsValidRange lba sectors dev = true) :
    sectors ≠ 0 ∧ lba.toNat + sectors.toNat ≤ dev.sectorCount.toNat := by
  unfold atapioIsValidRange at valid
  split at valid
  · cases valid
  · rename_i possible
    obtain ⟨before, nonempty⟩ := not_or.mp possible
    refine ⟨nonempty, ?_⟩
    have room : sectors ≤ dev.sectorCount - lba := of_decide_eq_true valid
    rw [BitVec.lt_def] at before
    rw [BitVec.le_def, BitVec.toNat_sub_of_le (by rw [BitVec.le_def]; omega)] at room
    omega

theorem perform_accepted (accepted : ¬ call.Refused parent blkdev) (enough : call.n.toNat < fuel)
    (t : TrackedDrive) :
    ∃ t', call.perform (TrackedDrive.machine parent.extra.portio) fuel parent blkdev t =
        .ok (0, t') ∧
      ∀ sector, sector ∈ t'.touched ↔ sector ∈ t.touched ∨
        (blkdev.offset + call.lba).toNat ≤ sector ∧
          sector < (blkdev.offset + call.lba).toNat + call.n.toNat := by
  have valid : atapioIsValidRange (blkdev.offset + call.lba) call.n parent = true := by
    simpa [PartitionCall.Refused] using accepted
  obtain ⟨-, inside⟩ := atapioIsValidRange_inside valid
  have reach := parent.addressable
  unfold PartitionCall.perform
  by_cases write : call.write = true
  · obtain ⟨t', written, touched⟩ := TrackedDrive.writeLoop_touched parent call.buffer fuel
      (blkdev.offset + call.lba) call.n t enough (by omega)
    refine ⟨t', ?_, touched⟩
    rw [if_pos write, partitionGenericWrite, atapioWrite, if_pos valid, written]
  · obtain ⟨t', dest', read, touched⟩ := TrackedDrive.readLoop_touched parent fuel
      (blkdev.offset + call.lba) call.n t call.buffer enough (by omega)
    refine ⟨t', ?_, touched⟩
    rw [if_neg write, partitionGenericRead, atapioRead, if_pos valid, read]
    rfl

theorem perform_refused (refused : call.Refused parent blkdev) (fuel : Nat) (t : TrackedDrive) :
    call.perform (TrackedDrive.machine parent.extra.portio) fuel parent blkdev t =
      .ok (-22, t) := by
  have invalid : ¬ atapioIsValidRange (blkdev.offset + call.lba) call.n parent = true := by
    rw [show atapioIsValidRange _ _ _ = false from refused]
    decide
  unfold PartitionCall.perform
  by_cases write : call.write = true
  · rw [if_pos write, partitionGenericWrite, atapioWrite, if_neg invalid]
  · rw [if_neg write, partitionGenericRead, atapioRead, if_neg invalid]
    rfl

/-- One call stays in the partition if it lies there or goes nowhere. -/
theorem perform_within (fits : blkdev.offset.toNat + blkdev.sectorCount.toNat < 2 ^ 64)
    (within : t.Within blkdev) (enough : call.n.toNat < fuel)
    (harmless : call.Inside blkdev ∨ call.Refused parent blkdev)
    (h : call.perform (TrackedDrive.machine parent.extra.portio) fuel parent blkdev t =
      .ok (st, t')) : t'.Within blkdev := by
  by_cases refused : call.Refused parent blkdev
  · rw [perform_refused refused] at h
    cases h
    exact within
  · obtain ⟨after, accepted, touched⟩ := perform_accepted refused enough t
    rw [accepted] at h
    cases h
    have inside := harmless.resolve_right refused
    unfold PartitionCall.Inside at inside
    have start : (blkdev.offset + call.lba).toNat = blkdev.offset.toNat + call.lba.toNat := by
      rw [BitVec.toNat_add]
      omega
    intro sector member
    rcases (touched sector).mp member with before | now
    · exact within sector before
    · omega

theorem perform_harmless (enough : call.n.toNat < fuel) (failed : ¬ call.Inside blkdev → st < 0)
    (h : call.perform (TrackedDrive.machine parent.extra.portio) fuel parent blkdev t =
      .ok (st, t')) : call.Inside blkdev ∨ call.Refused parent blkdev := by
  by_cases refused : call.Refused parent blkdev
  · exact .inr refused
  · obtain ⟨after, accepted, -⟩ := perform_accepted refused enough t
    rw [accepted] at h
    cases h
    by_contra neither
    exact absurd (failed fun inside => neither (.inl inside)) (by decide)

theorem perform_answers (enough : call.n.toNat < fuel) (t : TrackedDrive) :
    ∃ st t', call.perform (TrackedDrive.machine parent.extra.portio) fuel parent blkdev t =
      .ok (st, t') ∧ (call.Refused parent blkdev → st < 0) := by
  by_cases refused : call.Refused parent blkdev
  · exact ⟨-22, t, perform_refused refused fuel t, fun _ => by decide⟩
  · obtain ⟨t', accepted, -⟩ := perform_accepted refused enough t
    exact ⟨0, t', accepted, fun refuses => absurd refuses refused⟩

/-- Calls from any state of the drive in which nothing outside the partition was touched. -/
theorem confined_run_iff (fits : blkdev.offset.toNat + blkdev.sectorCount.toNat < 2 ^ 64)
    (within : t.Within blkdev) (enough : ∀ call ∈ calls, call.n.toNat < fuel) :
    Confined blkdev calls
        (performAll (TrackedDrive.machine parent.extra.portio) fuel parent blkdev calls t) ↔
      ∀ call ∈ calls, call.Inside blkdev ∨ call.Refused parent blkdev := by
  induction calls generalizing t with
  | nil => exact ⟨fun _ => by simp, fun _ => ⟨[], t, rfl, within, .nil⟩⟩
  | cons call rest ih =>
    obtain ⟨first, later⟩ := List.forall_mem_cons.mp enough
    obtain ⟨st, next, done, refuses⟩ := @perform_answers parent blkdev call fuel first t
    rw [performAll, done, Exec.ok_bind, List.forall_mem_cons]
    dsimp only
    constructor
    · rintro ⟨sts, last, result, inside, failed⟩
      obtain ⟨⟨sts', last'⟩, run, result⟩ := Exec.bind_ok.mp result
      cases result
      obtain ⟨here, failed⟩ := List.forall₂_cons.mp failed
      have harmless := perform_harmless first here done
      have kept := perform_within fits within first harmless done
      exact ⟨harmless, (ih kept later).mp ⟨sts', _, run, inside, failed⟩⟩
    · rintro ⟨harmless, others⟩
      have kept := perform_within fits within first harmless done
      obtain ⟨sts, last, run, inside, failed⟩ := (ih kept later).mpr others
      refine ⟨st :: sts, last, ?_, inside, .cons (fun outside => ?_) failed⟩
      · rw [run]
        rfl
      · exact refuses (harmless.resolve_left outside)

theorem numbered_small {mbrparts : List MBRPartition} {part : Partition} {idx : Nat}
    (member : part ∈ numbered idx mbrparts) :
    part.lba.toNat < 2 ^ 32 ∧ part.sectorCount.toNat < 2 ^ 32 := by
  induction mbrparts generalizing idx with
  | nil => cases member
  | cons mbrpart rest ih =>
    rcases List.mem_cons.mp member with rfl | member
    · dsimp only
      rw [BitVec.toNat_setWidth_of_le (by decide), BitVec.toNat_setWidth_of_le (by decide)]
      exact ⟨mbrpart.lbaStart.isLt, mbrpart.sectorCount.isLt⟩
    · exact ih member

/-- Calls through a partition that was enumerated on a disk stay in it, and fail where they reach
    outside, exactly when each of them lies in the partition or is refused by the disk. -/
theorem confined_iff (dev : BlockDevice) (mbr : MBR) (part : Partition) (mem : MountableMem)
    (parent : AtaBlockDevice) (d : AtaDrive) (calls : List PartitionCall) (fuel : Nat)
    (enumerated : part ∈ mbr.table) (enough : ∀ call ∈ calls, call.n.toNat < fuel) :
    Confined (newEntry dev part mem).blkdev calls
        (performAll (TrackedDrive.machine parent.extra.portio) fuel parent
          (newEntry dev part mem).blkdev calls ⟨d, []⟩) ↔
      ∀ call ∈ calls, call.Inside (newEntry dev part mem).blkdev ∨
        call.Refused parent (newEntry dev part mem).blkdev := by
  obtain ⟨offset, count⟩ := numbered_small enumerated
  apply confined_run_iff
  · show part.lba.toNat + part.sectorCount.toNat < 2 ^ 64
    omega
  · exact fun _ member => absurd member List.not_mem_nil
  · exact enough

/-- Sectors 2 and 3 of a disk. -/
def smallDisk : PartitionMem := diskMem [⟨2, 2⟩, ⟨0, 0⟩, ⟨0, 0⟩, ⟨0, 0⟩] rfl

def smallPartition : Partition := ⟨2, 2, partitionSuffix 0⟩

theorem smallPartition_mem : smallPartition ∈ smallDisk.mbr.table := List.mem_cons_self

/-- A read of the last sector of the partition and a write that no sector of the disk can take. -/
def goodCalls : List PartitionCall :=
  [⟨false, 1, 1, fun _ => 0⟩, ⟨true, 0xFFFFFFFFFFFFFFF0, 9, fun _ => 0⟩]

/-- A read of the sector behind the partition. -/
def badCalls : List PartitionCall := [⟨false, 2, 1, fun _ => 0⟩]

theorem confined_goodCalls :
    Confined (newEntry hda smallPartition (freshMems 0x100 0)).blkdev goodCalls
      (performAll (TrackedDrive.machine eightSectors.extra.portio) 10 eightSectors
        (newEntry hda smallPartition (freshMems 0x100 0)).blkdev goodCalls ⟨numberedDrive, []⟩) :=
  (confined_iff hda smallDisk.mbr smallPartition (freshMems 0x100 0) eightSectors numberedDrive
    goodCalls 10 smallPartition_mem (by decide)).mpr (by decide)

theorem not_confined_badCalls :
    smallPartition ∈ smallDisk.mbr.table ∧
    ¬ Confined (newEntry hda smallPartition (freshMems 0x100 0)).blkdev badCalls
      (performAll (TrackedDrive.machine eightSectors.extra.portio) 2 eightSectors
        (newEntry hda smallPartition (freshMems 0x100 0)).blkdev badCalls ⟨numberedDrive, []⟩) := by
  refine ⟨smallPartition_mem, fun confined => ?_⟩
  have untouched : TrackedDrive.Within (newEntry hda smallPartition (freshMems 0x100 0)).blkdev
      ⟨numberedDrive, []⟩ := fun _ member => absurd member List.not_mem_nil
  have harmless := (confined_run_iff (by decide) untouched (by decide)).mp confined
  exact absurd harmless (by decide)

end Dxgmx
