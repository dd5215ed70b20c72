import Dxgmx.Library.Runs
import Dxgmx.Storage.BlkdevmPartitions
import Dxgmx.Storage.Mbr

open Library

namespace Dxgmx

/-- A string with its terminator left out. -/
structure CStr where
  text : List Byte
  clean : 0 ∉ text

def CStr.bytes (str : CStr) : List Byte := str.text ++ [0]

/-- `"UUID="`. -/
def uuidPrefix : List Byte := [chr 'U', chr 'U', chr 'I', chr 'D', chr '=']

/-- The bytes of the string that a UUID points to. There are none at NULL. -/
def uuidBytes (strings : Blocks (List Byte)) (addr : Nat) : Exec (List Byte) :=
  if addr = 0 then .error .fault else strings.load addr

namespace Blkdevm

/-- `FOR_EACH_ENTRY_IN_LL` over the mountable devices, up to the first one that the body returns. -/
def blkdevmFindLoop {σ : Type} (m : Blkdevm) (body : σ → MountableBlockDevice → Exec (Bool × σ)) :
    (fuel node : Nat) → σ → Exec Nat
  | fuel, node, s =>
    if node = 0 then .ok 0
    else
      match fuel with
      | 0 => .error .fuel
      | fuel + 1 => do
        let here ← m.list.nodes.load node
        if here.data = 0 then blkdevmFindLoop m body fuel here.next s
        else
          let mblkdev ← m.blkdevs.load here.data
          let (found, s) ← body s mblkdev
          if found then pure here.data else blkdevmFindLoop m body fuel here.next s

attribute [grind =] blkdevmFindLoop

def blkdevmFindMountableBlkdevByUuid (strings : Blocks (List Byte)) (limit : Nat)
    (uuid : List Byte) (m : Blkdevm) : Exec Nat :=
  m.blkdevmFindLoop (fun _ mblkdev => do
    let bytes ← uuidBytes strings mblkdev.uuid
    let order ← strcmp bytes uuid
    pure (decide (order = 0), ())) limit m.list.ll.root ()

def maxBlkdevNameLen : Nat := 128

/-- The body of the loop of `blkdevm_find_mountable_blkdev_by_name`, with the names of the block
    devices and the buffer. -/
def blkdevmNameMatches (names : Nat → CStr) (name : List Byte) (m : Blkdevm) (buf : Nat → Byte)
    (mblkdev : MountableBlockDevice) : Exec (Bool × (Nat → Byte)) := do
  let parent ← cstring (names mblkdev.parent).bytes
  if maxBlkdevNameLen < parent.length then pure (false, buf)
  else
    let buf ← strncpy buf (names mblkdev.parent).bytes maxBlkdevNameLen
    let suffix ← m.suffixes.load mblkdev.suffix
    let buf ← strncat buf (suffix ++ [0]) (maxBlkdevNameLen - parent.length)
    let order ← strcmp ((List.range (maxBlkdevNameLen + 1)).map buf) name
    pure (decide (order = 0), buf)

def blkdevmFindMountableBlkdevByName (names : Nat → CStr) (buf : Nat → Byte) (limit : Nat)
    (name : List Byte) (m : Blkdevm) : Exec Nat :=
  m.blkdevmFindLoop (m.blkdevmNameMatches names name) limit m.list.ll.root buf

/-- `sizeof("UUID=")` counts the terminator. -/
def blkdevmFindMountableBlkdev (strings : Blocks (List Byte)) (names : Nat → CStr)
    (buf : Nat → Byte) (limit : Nat) (id : CStr) (m : Blkdevm) : Exec Nat :=
  if strstr id.text uuidPrefix = some 0 then
    m.blkdevmFindMountableBlkdevByUuid strings limit (id.bytes.drop (uuidPrefix.length + 1))
  else m.blkdevmFindMountableBlkdevByName names buf limit id.bytes

end Blkdevm

/-- An enumeration, with what the device and the allocator answer. -/
structure Enumeration where
  dev : BlockDevice
  answers : MbrAnswers
  mems : Nat → MountableMem

/-- The UUIDs of the partitions, at the devices that are made for them. -/
def madeFor (mems : Nat → MountableMem) : (i : Nat) → List UuidPartition → (Nat → List Byte) →
    Nat → List Byte
  | _, [], uuids => uuids
  | i, part :: rest, uuids =>
    madeFor mems (i + 1) rest (Function.update uuids (mems i).blkdev part.uuid)

/-- A successful enumeration. Beside the devices stand the UUIDs of the partitions that they were
    made for. -/
def Enumerates (s : Blkdevm × (Nat → List Byte)) (call : Enumeration)
    (t : Blkdevm × (Nat → List Byte)) : Prop :=
  (∃ enough, ∀ limit, enough ≤ limit →
    s.1.blkdevmEnumeratePartitions limit call.dev call.answers.mem call.mems = .ok (0, t.1)) ∧
  ∃ parts, partitiontableCreateUuids call.dev call.answers = .ok (0, parts) ∧
    t.2 = madeFor call.mems 0 parts s.2

/-- The name under which a device is searched. -/
def MountableEntry.fullName (names : Nat → CStr) (entry : MountableEntry) : List Byte :=
  (names entry.blkdev.parent).text ++ entry.name

/-- A search by UUID gives the device of the partition with that UUID, or NULL if there is none, and
    one by name the first device with that name. -/
structure FindsRight (entries : List MountableEntry) (uuids : Nat → List Byte) (names : Nat → CStr)
    (id : CStr) (result : Exec Nat) : Prop where
  uuid : ∀ uuid, id.text = uuidPrefix ++ uuid →
    ∀ entry ∈ entries, uuids entry.addr = uuid ++ [0] → result = .ok entry.addr
  noUuid : ∀ uuid, id.text = uuidPrefix ++ uuid →
    (∀ entry ∈ entries, uuids entry.addr ≠ uuid ++ [0]) → result = .ok 0
  name : ¬ uuidPrefix <+: id.text →
    result = .ok (((entries.find? fun entry => entry.fullName names = id.text).map
      MountableEntry.addr).getD 0)

/-- What an enumeration leaves of a device: no UUID, and a suffix. -/
structure MountableEntry.Made (entry : MountableEntry) : Prop where
  uuid : entry.blkdev.uuid = 0
  suffix : entry.name ≠ []
  clean : 0 ∉ entry.name

variable {m : Blkdevm} {entries : List MountableEntry} {entry : MountableEntry} {node fuel : Nat}

section Loop

variable {σ : Type} {body : σ → MountableBlockDevice → Exec (Bool × σ)}

/-- The first device of the list that the body takes. -/
theorem Blkdevm.findLoop_first {found : MountableEntry → Bool} (null : m.list.nodes 0 = none)
    (live : ∀ entry ∈ entries, entry.addr ≠ 0 ∧ m.blkdevs entry.addr = some entry.blkdev)
    (each : ∀ entry ∈ entries, ∀ s, ∃ s', body s entry.blkdev = .ok (found entry, s'))
    (chain : Segment m.list.nodes node (entries.map MountableEntry.pair) 0)
    (enough : entries.length ≤ fuel) (s : σ) :
    m.blkdevmFindLoop body fuel node s =
      .ok (((entries.find? found).map MountableEntry.addr).getD 0) := by
  induction entries generalizing node fuel s with
  | nil =>
    obtain rfl : node = 0 := chain
    unfold blkdevmFindLoop
    exact if_pos rfl
  | cons entry rest ih =>
    obtain ⟨rfl, next, here, later⟩ := chain
    have nonnull : entry.node ≠ 0 := by
      intro same
      have zero := null
      rw [← same, show m.list.nodes entry.node = _ from here] at zero
      cases zero
    cases fuel with
    | zero => cases enough
    | succ fuel =>
      obtain ⟨addrNonnull, alive⟩ := live entry List.mem_cons_self
      obtain ⟨s', ran⟩ := each entry List.mem_cons_self s
      unfold blkdevmFindLoop
      dsimp only
      rw [if_neg nonnull, Blocks.load_live here, Exec.ok_bind, if_neg addrNonnull,
        Blocks.load_live alive, Exec.ok_bind, ran, Exec.ok_bind]
      dsimp only
      cases taken : found entry with
      | true =>
        rw [if_pos rfl, List.find?_cons_of_pos taken]
        rfl
      | false =>
        rw [if_neg (by decide), List.find?_cons_of_neg (by simp [taken])]
        exact ih (fun other member => live other (List.mem_cons_of_mem _ member))
          (fun other member => each other (List.mem_cons_of_mem _ member)) later
          (Nat.le_of_succ_le_succ enough) s'

/-- The loop goes no further than a device that the body faults on. -/
theorem Blkdevm.Holds.findLoop_faults {rest : List MountableEntry} (holds : m.Holds (entry :: rest))
    (s : σ) (faults : body s entry.blkdev = .error .fault) (enough : (entry :: rest).length ≤ fuel) :
    m.blkdevmFindLoop body fuel m.list.ll.root s = .error .fault := by
  obtain ⟨root, next, here, -⟩ := holds.list.chain
  obtain ⟨addrNonnull, alive⟩ := holds.live entry List.mem_cons_self
  have nonnull : entry.node ≠ 0 := fun same =>
    holds.list.nonnull (same ▸ List.mem_map_of_mem List.mem_cons_self)
  cases fuel with
  | zero => cases enough
  | succ fuel =>
    rw [root]
    unfold blkdevmFindLoop
    dsimp only
    rw [if_neg nonnull, Blocks.load_live here, Exec.ok_bind, if_neg addrNonnull,
      Blocks.load_live alive, Exec.ok_bind, faults]
    rfl

end Loop

section Find

variable {names : Nat → CStr} {id : CStr} {limit : Nat}

theorem CStr.cstring (str : CStr) : Dxgmx.cstring str.bytes = .ok str.text :=
  cstring_terminated str.clean []

theorem Blkdevm.Holds.nameMatches_ok (holds : m.Holds entries) (member : entry ∈ entries)
    (made : entry.Made) (within : (entry.fullName names).length ≤ maxBlkdevNameLen)
    (buf : Nat → Byte) :
    ∃ buf', m.blkdevmNameMatches names id.bytes buf entry.blkdev =
      .ok (decide (entry.fullName names = id.text), buf') := by
  have longer := List.length_pos_iff.mpr made.suffix
  unfold MountableEntry.fullName at within ⊢
  rw [List.length_append] at within
  have short : (names entry.blkdev.parent).text.length < maxBlkdevNameLen := by omega
  obtain ⟨buf₁, copied, there₁⟩ :=
    strncpy_textAt buf (names entry.blkdev.parent).clean short
  obtain ⟨buf₂, appended, there₂⟩ := there₁.strncat (Nat.lt_trans short (by decide))
    (cstring_terminated made.clean [])
    (maxBlkdevNameLen - (names entry.blkdev.parent).text.length)
  rw [List.take_of_length_le (by omega)] at there₂
  obtain ⟨order, compared, same⟩ := strcmp_ok
    (there₂.cstring (k := maxBlkdevNameLen + 1) (by rw [List.length_append]; omega)) id.cstring
  refine ⟨buf₂, ?_⟩
  unfold blkdevmNameMatches
  rw [CStr.cstring, Exec.ok_bind, if_neg (Nat.not_lt.mpr (Nat.le_of_lt short))]
  unfold CStr.bytes at compared ⊢
  rw [copied, Exec.ok_bind, Blocks.load_live (holds.named entry member).2, Exec.ok_bind, appended,
    Exec.ok_bind, compared, Exec.ok_bind]
  congr 2
  exact decide_eq_decide.mpr same

/-- The search by name. -/
theorem Blkdevm.Holds.findByName (holds : m.Holds entries) (made : ∀ entry ∈ entries, entry.Made)
    (within : ∀ entry ∈ entries, (entry.fullName names).length ≤ maxBlkdevNameLen)
    (enough : entries.length ≤ limit) (buf : Nat → Byte) :
    m.blkdevmFindMountableBlkdevByName names buf limit id.bytes =
      .ok (((entries.find? fun entry => entry.fullName names = id.text).map
        MountableEntry.addr).getD 0) := by
  apply findLoop_first holds.list.null holds.live _ holds.list.chain enough
  intro entry member s
  exact holds.nameMatches_ok member (made entry member) (within entry member) s

/-- The search by UUID, which compares with the UUID of every device that it passes. -/
theorem Blkdevm.Holds.findByUuid (holds : m.Holds entries) (made : ∀ entry ∈ entries, entry.Made)
    (enough : entries.length ≤ limit) (strings : Blocks (List Byte)) (uuid : List Byte) :
    m.blkdevmFindMountableBlkdevByUuid strings limit uuid =
      if entries = [] then .ok 0 else .error .fault := by
  cases entries with
  | nil =>
    rw [if_pos rfl]
    have ended : m.list.ll.root = 0 := holds.list.chain
    unfold blkdevmFindMountableBlkdevByUuid blkdevmFindLoop
    exact if_pos ended
  | cons entry rest =>
    rw [if_neg (List.cons_ne_nil _ _)]
    apply holds.findLoop_faults () _ enough
    unfold uuidBytes
    rw [if_pos (made entry List.mem_cons_self).uuid]
    rfl

theorem Blkdevm.Holds.find_right_iff (holds : m.Holds entries) (made : ∀ entry ∈ entries, entry.Made)
    (uuids : Nat → List Byte) (strings : Blocks (List Byte)) (buf : Nat → Byte)
    (within : ∀ entry ∈ entries, (entry.fullName names).length ≤ maxBlkdevNameLen)
    (enough : entries.length ≤ limit) :
    FindsRight entries uuids names id (m.blkdevmFindMountableBlkdev strings names buf limit id) ↔
      (uuidPrefix <+: id.text → entries = []) := by
  unfold blkdevmFindMountableBlkdev
  by_cases prefixed : uuidPrefix <+: id.text
  · rw [if_pos ((strstr_start _ _).mpr prefixed), holds.findByUuid made enough]
    obtain ⟨uuid, split⟩ := prefixed
    constructor
    · intro right _
      by_contra some_
      rw [if_neg some_] at right
      by_cases hit : ∃ entry ∈ entries, uuids entry.addr = uuid ++ [0]
      · obtain ⟨entry, member, its⟩ := hit
        cases right.uuid uuid split.symm entry member its
      · cases right.noUuid uuid split.symm fun entry member its => hit ⟨entry, member, its⟩
    · intro empty
      obtain rfl := empty ⟨uuid, split⟩
      exact ⟨nofun, fun _ _ _ => if_pos rfl, fun other => absurd ⟨uuid, split⟩ other⟩
  · rw [if_neg (mt (strstr_start _ _).mp prefixed), holds.findByName made within enough]
    refine iff_of_true ⟨fun uuid split => ?_, fun uuid split => ?_, fun _ => rfl⟩
      fun other => absurd other prefixed
    · exact absurd ⟨uuid, split.symm⟩ prefixed
    · exact absurd ⟨uuid, split.symm⟩ prefixed

end Find

section Reached

theorem numbered_suffix {idx : Nat} {mbrparts : List MBRPartition} :
    ∀ part ∈ numbered idx mbrparts, ∃ k < idx + mbrparts.length, part.suffix = partitionSuffix k := by
  induction mbrparts generalizing idx with
  | nil => nofun
  | cons mbrpart rest ih =>
    intro part member
    rw [List.length_cons]
    rcases List.mem_cons.mp member with rfl | member
    · exact ⟨idx, by omega, rfl⟩
    · obtain ⟨k, below, named⟩ := ih part member
      exact ⟨k, by omega, named⟩

theorem partitionSuffix_clean : ∀ k < 4, 0 ∉ partitionSuffix k := by decide

theorem table_suffix (mbr : MBR) : ∀ part ∈ mbr.table, part.suffix ≠ [] ∧ 0 ∉ part.suffix := by
  intro part member
  obtain ⟨k, below, named⟩ := numbered_suffix part member
  have few := List.length_filter_le MBRPartition.allocated mbr.partitions
  rw [mbr.four] at few
  rw [named]
  exact ⟨List.cons_ne_nil _ _, partitionSuffix_clean k (by omega)⟩

theorem newEntries_made {dev : BlockDevice} {mems : Nat → MountableMem} {i : Nat}
    {parts : List Partition} (named : ∀ part ∈ parts, part.suffix ≠ [] ∧ 0 ∉ part.suffix) :
    ∀ entry ∈ newEntries dev mems i parts, entry.Made := by
  induction parts generalizing i with
  | nil => nofun
  | cons part rest ih =>
    intro entry member
    rcases List.mem_cons.mp member with rfl | member
    · obtain ⟨suffix, clean⟩ := named part List.mem_cons_self
      exact ⟨rfl, suffix, clean⟩
    · exact ih (fun part inside => named part (List.mem_cons_of_mem _ inside)) entry member

/-- The list holds devices that enumerations have made. -/
def Blkdevm.Reached (m : Blkdevm) : Prop :=
  ∃ entries, m.Holds entries ∧ ∀ entry ∈ entries, entry.Made

theorem Enumerates.reached {s t : Blkdevm × (Nat → List Byte)} {call : Enumeration}
    (enumerates : Enumerates s call t) (reached : s.1.Reached) : t.1.Reached := by
  obtain ⟨⟨enough, returns⟩, -⟩ := enumerates
  obtain ⟨old, holds, made⟩ := reached
  have after := holds.enumerate (Nat.lt_of_succ_le (Nat.le_max_right enough _))
    (returns _ (Nat.le_max_left enough _))
  refine ⟨_, after, fun entry member => ?_⟩
  rcases List.mem_append.mp member with kept | new
  · exact made entry (List.mem_of_mem_eraseP kept)
  · exact newEntries_made (table_suffix _) entry new

theorem enumerations_reached {trace : List Enumeration} {uuids uuids' : Nat → List Byte}
    (run : Run Enumerates (noBlkdevs, uuids') trace (m, uuids)) : m.Reached :=
  run.invariant (fun s => s.1.Reached) (fun _ _ _ step reached => step.reached reached)
    ⟨[], noBlkdevs_holds, nofun⟩

end Reached

/-- After any run of enumerations the search is right by name, and by UUID only as long as there are
    no devices. -/
theorem findsRight_iff (m : Blkdevm) (uuids : Nat → List Byte) (trace : List Enumeration)
    (run : Run Enumerates (noBlkdevs, fun _ => []) trace (m, uuids)) (names : Nat → CStr)
    (strings : Blocks (List Byte)) (buf : Nat → Byte) (id : CStr) :
    ∃ entries, m.Holds entries ∧
      ((∀ entry ∈ entries, (entry.fullName names).length ≤ Blkdevm.maxBlkdevNameLen) →
        ∀ limit, entries.length ≤ limit →
          (FindsRight entries uuids names id
              (m.blkdevmFindMountableBlkdev strings names buf limit id) ↔
            (uuidPrefix <+: id.text → entries = []))) := by
  obtain ⟨entries, holds, made⟩ := enumerations_reached run
  exact ⟨entries, holds, fun within limit enough =>
    holds.find_right_iff made uuids strings buf within enough⟩

/-- The enumeration of a disk with one partition. -/
def onePartition : Enumeration := ⟨hda, enoughFor (oneSlot 0 0), freshMems 0x100⟩

/-- "00000000-0000-0000-0000-000000000001". -/
def onePartitionUuid : List Byte := uuidText 0 0 0 0 1

theorem onePartitionUuid_clean : 0 ∉ uuidPrefix ++ onePartitionUuid := by decide

theorem onePartition_run :
    ∃ m uuids, Run Enumerates (noBlkdevs, fun _ => []) [onePartition] (m, uuids) ∧
      m.Holds [newEntry hda ⟨1, 1, partitionSuffix 0⟩ (freshMems 0x100 0)] ∧
      uuids (freshMems 0x100 0).blkdev = onePartitionUuid ++ [0] := by
  have created : partitiontableCreate hda onePartition.answers.mem =
      (0, [⟨1, 1, partitionSuffix 0⟩]) := by decide
  have added : ∃ m, noBlkdevs.blkdevmAddPartitions hda (freshMems 0x100) 0
      [⟨1, 1, partitionSuffix 0⟩] = .ok (0, m) := ⟨_, rfl⟩
  obtain ⟨m, added⟩ := added
  have enumerates : ∀ limit, noBlkdevs.blkdevmEnumeratePartitions limit hda
      onePartition.answers.mem (freshMems 0x100) = .ok (0, m) := by
    intro limit
    unfold Blkdevm.blkdevmEnumeratePartitions Blkdevm.blkdevmFreeBlkdevChildren
      Blkdevm.blkdevmFreeChildrenLoop
    rw [created, if_neg (by decide), if_pos (show noBlkdevs.list.ll.root = 0 from rfl)]
    exact added
  have slots : onePartition.answers.mbr.slots = [0] := by decide
  have uuids : partitiontableCreateUuids hda onePartition.answers =
      .ok (0, [⟨⟨1, 1, partitionSuffix 0⟩, onePartitionUuid ++ [0]⟩]) := by
    unfold onePartition
    rw [partitiontableCreateUuids_eq (enoughFor_enough _), if_pos (by decide)]
    show Except.ok (0, onePartition.answers.mbr.numberedUuids 0
      (onePartition.answers.mbr.slots.map onePartition.answers.mbr.record)) = _
    rw [slots]
    rfl
  refine ⟨m, _, .single ⟨⟨0, fun limit _ => enumerates limit⟩, _, uuids, rfl⟩,
    noBlkdevs_holds.addPartitions added, ?_⟩
  show Function.update (fun _ => []) (freshMems 0x100 0).blkdev (onePartitionUuid ++ [0])
    (freshMems 0x100 0).blkdev = _
  exact Function.update_self _ _ _

def hdaName : CStr := ⟨[chr 'h', chr 'd', chr 'a'], List.count_eq_zero.mp rfl⟩

def hdap0 : CStr := ⟨[chr 'h', chr 'd', chr 'a', chr 'p', chr '0'], List.count_eq_zero.mp rfl⟩

theorem findsRight_hdap0 : ∃ m uuids, ∃ entries : List MountableEntry,
    Blkdevm.Holds m entries ∧ entries ≠ [] ∧
      FindsRight entries uuids (fun _ => hdaName) hdap0
        (m.blkdevmFindMountableBlkdev (fun _ => none) (fun _ => hdaName) (fun _ => 0) 1 hdap0) := by
  obtain ⟨m, uuids, run, held, -⟩ := onePartition_run
  obtain ⟨entries, holds, right⟩ := findsRight_iff m uuids [onePartition] run (fun _ => hdaName)
    (fun _ => none) (fun _ => 0) hdap0
  cases holds.unique held
  refine ⟨m, uuids, _, held, List.cons_ne_nil _ _, (right ?_ 1 (Nat.le_refl 1)).mpr ?_⟩
  · decide
  · exact fun prefixed => absurd prefixed (by decide)

/-- The only partition is not found by its UUID. -/
theorem not_findsRight_ownUuid : ∃ m uuids, ∃ entries : List MountableEntry,
    Run Enumerates (noBlkdevs, fun _ => []) [onePartition] (m, uuids) ∧
      Blkdevm.Holds m entries ∧
      (∃ entry ∈ entries, uuids entry.addr = onePartitionUuid ++ [0]) ∧
      ¬ FindsRight entries uuids (fun _ => hdaName) ⟨_, onePartitionUuid_clean⟩
        (m.blkdevmFindMountableBlkdev (fun _ => none) (fun _ => hdaName) (fun _ => 0) 1
          ⟨_, onePartitionUuid_clean⟩) := by
  obtain ⟨m, uuids, run, held, own⟩ := onePartition_run
  refine ⟨m, uuids, _, run, held, ⟨_, List.mem_singleton_self _, own⟩, fun right => ?_⟩
  have made : ∀ entry ∈ [newEntry hda ⟨1, 1, partitionSuffix 0⟩ (freshMems 0x100 0)],
      entry.Made := by
    intro entry member
    rw [List.mem_singleton.mp member]
    exact ⟨rfl, List.cons_ne_nil _ _, partitionSuffix_clean 0 (by decide)⟩
  have within : ∀ entry ∈ [newEntry hda ⟨1, 1, partitionSuffix 0⟩ (freshMems 0x100 0)],
      (entry.fullName fun _ => hdaName).length ≤ Blkdevm.maxBlkdevNameLen := by decide
  have empty := (held.find_right_iff made uuids (fun _ => none) (fun _ => 0) within
    (Nat.le_refl 1)).mp right ⟨onePartitionUuid, rfl⟩
  cases empty

end Dxgmx
