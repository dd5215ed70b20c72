import Dxgmx.Kstdlib.Stdlib
import Dxgmx.Utils.LinkedList

open Library

namespace Dxgmx

/-- The fields of a partition's record that tell where it is. -/
structure MBRPartition where
  lbaStart : BitVec 32
  sectorCount : BitVec 32
  deriving DecidableEq

structure MBR where
  reserved : BitVec 16
  partitions : List MBRPartition
  signature : BitVec 16
  four : partitions.length = 4

def mbrValidate (mbr : MBR) : Int :=
  if mbr.signature ≠ 0xAA55 then -22
  else if mbr.reserved ≠ 0 ∧ mbr.signature ≠ 0x5A5A then -22
  else 0

/-- A partition's UUID is not kept by those who ask for the table. -/
structure Partition where
  lba : BitVec 64
  sectorCount : BitVec 64
  suffix : List Byte
  deriving DecidableEq

/-- The address of a block device stands for the device. -/
structure BlockDevice where
  addr : Nat
  sectorsize : BitVec 16

/-- What the device and the allocator answer when a partition table is read. -/
structure PartitionMem where
  buf : Bool
  read : Int
  mbr : MBR
  partitions : Bool
  suffix : Nat → Bool
  uuid : Nat → Bool

def mbrRead (dev : BlockDevice) (mem : PartitionMem) : Int :=
  if 512 < dev.sectorsize ∧ mem.buf = false then -12
  else if mem.read < 0 then mem.read
  else 0

def partitionSuffix (n : Nat) : List Byte := 0x70 :: itoa (BitVec.ofNat 32 n) 10

def partitionGenerateSuffix (mem : Bool) (n : Nat) : Option (List Byte) :=
  if mem then some (partitionSuffix n) else none

def MBRPartition.allocated (mbrpart : MBRPartition) : Bool :=
  mbrpart.lbaStart ≠ 0 ∧ mbrpart.sectorCount ≠ 0

/-- The loop that fills in the partitions, the first of which has number `idx`. -/
def partitiontableFill (mem : PartitionMem) : (idx : Nat) → List MBRPartition →
    Option (List Partition)
  | _, [] => some []
  | idx, mbrpart :: rest =>
    if mbrpart.allocated = false then partitiontableFill mem idx rest
    else do
      let suffix ← partitionGenerateSuffix (mem.suffix idx) idx
      if mem.uuid idx = false then none
      else
        let parts ← partitiontableFill mem (idx + 1) rest
        pure (⟨mbrpart.lbaStart.setWidth 64, mbrpart.sectorCount.setWidth 64, suffix⟩ :: parts)

def partitiontableTryCreateMbr (dev : BlockDevice) (mem : PartitionMem) : Int × List Partition :=
  if mbrRead dev mem < 0 then (mbrRead dev mem, [])
  else if mbrValidate mem.mbr < 0 then (mbrValidate mem.mbr, [])
  else if mem.mbr.partitions.countP MBRPartition.allocated = 0 then (0, [])
  else if mem.partitions = false then (-12, [])
  else
    match partitiontableFill mem 0 mem.mbr.partitions with
    | none => (-12, [])
    | some partitions => (0, partitions)

def partitiontableCreate (blkdev : BlockDevice) (mem : PartitionMem) : Int × List Partition :=
  partitiontableTryCreateMbr blkdev mem

/-- The partitions that the records stand for, numbered from `idx` on. -/
def numbered : (idx : Nat) → List MBRPartition → List Partition
  | _, [] => []
  | idx, mbrpart :: rest =>
    ⟨mbrpart.lbaStart.setWidth 64, mbrpart.sectorCount.setWidth 64, partitionSuffix idx⟩ ::
      numbered (idx + 1) rest

/-- The table of a device: what its record says, without the records that are not allocated. -/
def MBR.table (mbr : MBR) : List Partition :=
  numbered 0 (mbr.partitions.filter MBRPartition.allocated)

variable {mem : PartitionMem} {dev : BlockDevice} {parts : List Partition} {idx : Nat}

theorem partitiontableFill_some {mbrparts : List MBRPartition}
    (h : partitiontableFill mem idx mbrparts = some parts) :
    parts = numbered idx (mbrparts.filter MBRPartition.allocated) := by
  induction mbrparts generalizing idx parts with
  | nil =>
    cases h
    rfl
  | cons mbrpart rest ih =>
    unfold partitiontableFill at h
    cases allocated : mbrpart.allocated with
    | false =>
      rw [if_pos allocated] at h
      rw [List.filter_cons_of_neg (by simp [allocated])]
      exact ih h
    | true =>
      rw [if_neg (by simp [allocated])] at h
      rw [List.filter_cons_of_pos allocated]
      obtain ⟨suffix, named, h⟩ := Option.bind_eq_some_iff.mp h
      split at h
      · cases h
      · obtain ⟨later, filled, result⟩ := Option.bind_eq_some_iff.mp h
        cases result
        unfold partitionGenerateSuffix at named
        split at named
        · cases named
          show _ :: later = _ :: numbered (idx + 1) _
          rw [ih filled]
        · cases named

/-- A table that is created is the table of the device. -/
theorem partitiontableCreate_table (created : ¬ (partitiontableCreate dev mem).1 < 0) :
    (partitiontableCreate dev mem).2 = mem.mbr.table := by
  unfold partitiontableCreate partitiontableTryCreateMbr at created ⊢
  by_cases unread : mbrRead dev mem < 0
  · rw [if_pos unread] at created
    exact absurd unread created
  · rw [if_neg unread] at created ⊢
    by_cases invalid : mbrValidate mem.mbr < 0
    · rw [if_pos invalid] at created
      exact absurd invalid created
    · rw [if_neg invalid] at created ⊢
      by_cases empty : mem.mbr.partitions.countP MBRPartition.allocated = 0
      · rw [if_pos empty]
        unfold MBR.table
        rw [List.countP_eq_length_filter, List.length_eq_zero_iff] at empty
        rw [empty]
        rfl
      · rw [if_neg empty] at created ⊢
        by_cases refused : mem.partitions = false
        · rw [if_pos refused] at created
          exact absurd (by decide) created
        · rw [if_neg refused] at created ⊢
          cases filled : partitiontableFill mem 0 mem.mbr.partitions with
          | none =>
            rw [filled] at created
            exact absurd (by decide) created
          | some found => exact partitiontableFill_some filled

/-- The functions of the device are always `partition_generic_read` and `partition_generic_write`. -/
structure MountableBlockDevice where
  suffix : Nat
  offset : BitVec 64
  uuid : Nat
  sectorCount : BitVec 64
  sectorsize : BitVec 32
  parent : Nat
  deriving DecidableEq

/-- `g_mountable_blkdevs` and what is allocated for it. -/
structure Blkdevm where
  list : ListMemory
  blkdevs : Blocks MountableBlockDevice
  suffixes : Blocks (List Byte)

/-- The addresses that the allocator answers for one partition. -/
structure MountableMem where
  suffix : Nat
  blkdev : Nat
  node : Nat

def kfreeBlock {β : Type} (addr : Nat) (blocks : Blocks β) : Exec (Blocks β) :=
  if addr = 0 then .error .panic else blocks.free addr

/-- A node that `kfree` has filled with zeros ends the list. -/
def nextNode (addr : Nat) (nodes : Blocks Node) : Nat :=
  match nodes addr with
  | none => 0
  | some node => node.next

namespace Blkdevm

def blkdevmNewMountableBlkdev (mem : MountableMem) (m : Blkdevm) : Exec (Nat × Blkdevm) :=
  if mem.blkdev = 0 then .ok (0, m)
  else do
    let blkdevs ← m.blkdevs.alloc mem.blkdev ⟨0, 0, 0, 0, 0, 0⟩
    let (st, list) ← m.list.linkedlistAdd mem.blkdev mem.node
    if st < 0 then
      let blkdevs ← kfreeBlock mem.blkdev blkdevs
      pure (0, ⟨list, blkdevs, m.suffixes⟩)
    else pure (mem.blkdev, ⟨list, blkdevs, m.suffixes⟩)

/-- `limit` bounds the walks over the list. -/
def blkdevmFreeMountableBlkdev (limit mblkdev : Nat) (m : Blkdevm) : Exec Blkdevm := do
  let (_, list) ← m.list.linkedlistRemoveByData mblkdev limit
  let blkdevs ← kfreeBlock mblkdev m.blkdevs
  pure ⟨list, blkdevs, m.suffixes⟩

/-- The body of the loop of `blkdevm_free_blkdev_children`. -/
def blkdevmFreeChild (limit blkdev data : Nat) (m : Blkdevm) : Exec Blkdevm :=
  if data = 0 then .ok m
  else do
    let mblkdev ← m.blkdevs.load data
    if mblkdev.parent = blkdev then
      let suffixes ← kfreeBlock mblkdev.suffix m.suffixes
      blkdevmFreeMountableBlkdev limit data { m with suffixes := suffixes }
    else pure m

def blkdevmFreeChildrenLoop (limit blkdev : Nat) : (fuel node : Nat) → Blkdevm → Exec Blkdevm
  | fuel, node, m =>
    if node = 0 then .ok m
    else
      match fuel with
      | 0 => .error .fuel
      | fuel + 1 => do
        let here ← m.list.nodes.load node
        let m ← blkdevmFreeChild limit blkdev here.data m
        blkdevmFreeChildrenLoop limit blkdev fuel (nextNode node m.list.nodes) m

def blkdevmFreeBlkdevChildren (limit blkdev : Nat) (m : Blkdevm) : Exec Blkdevm :=
  blkdevmFreeChildrenLoop limit blkdev limit m.list.ll.root m

/-- The loop of `blkdevm_enumerate_partitions`, from partition `i` on. -/
def blkdevmAddPartitions (dev : BlockDevice) (mems : Nat → MountableMem) :
    (i : Nat) → List Partition → Blkdevm → Exec (Int × Blkdevm)
  | _, [], m => .ok (0, m)
  | i, part :: rest, m =>
    if (mems i).suffix = 0 then .ok (-12, m)
    else do
      let suffixes ← m.suffixes.alloc (mems i).suffix part.suffix
      let (mblkdev, m) ← blkdevmNewMountableBlkdev (mems i) { m with suffixes := suffixes }
      if mblkdev = 0 then
        let suffixes ← kfreeBlock (mems i).suffix m.suffixes
        pure (-12, { m with suffixes := suffixes })
      else
        let blkdevs ← m.blkdevs.store mblkdev ⟨(mems i).suffix, part.lba, 0, part.sectorCount,
          dev.sectorsize.setWidth 32, dev.addr⟩
        blkdevmAddPartitions dev mems (i + 1) rest { m with blkdevs := blkdevs }

def blkdevmEnumeratePartitions (limit : Nat) (dev : BlockDevice) (mem : PartitionMem)
    (mems : Nat → MountableMem) (m : Blkdevm) : Exec (Int × Blkdevm) :=
  if (partitiontableCreate dev mem).1 < 0 then .ok ((partitiontableCreate dev mem).1, m)
  else do
    let m ← blkdevmFreeBlkdevChildren limit dev.addr m
    blkdevmAddPartitions dev mems 0 (partitiontableCreate dev mem).2 m

end Blkdevm

end Dxgmx
